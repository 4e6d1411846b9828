import Mathlib.Data.Option.NAry
import TagPolicy.Proofs.Language.Chains
import TagPolicy.Proofs.Policy.NormalForm

/-!
Chains in other parentheses. The joins of conditions are associative on normal forms, with one
constant as unit and the other deciding every join it takes part in. What an expression compiles to
is in normal form, so the tree of a chain compiles to the conditions of its operands joined in their
order, in whatever parentheses they stand. A table therefore does not tell how the chains of its
document were parenthesized, and neither does the fault of a document without a table.
-/

namespace TagPolicy

open TagPolicy.Language (Document Expr Statement)
open Outcome (bind_eq_ok pure_eq_ok)
open Condition (Loose Normal Plain)

namespace Connective

def expr : Connective → Expr → Expr → Expr
  | conjunction => .and
  | disjunction => .or

theorem lower_expr (connective : Connective) (known : List Predicate) (left right : Expr) :
    lower known (connective.expr left right) =
      (do pure (connective.join (← lower known left) (← lower known right))) := by
  cases connective <;> rfl

section Laws

variable {connective : Connective} {shared : UInt32 → Prop}
  {condition left middle right : Condition}

theorem collect_split (normal : condition.Normal shared) :
    connective.collect (connective.split condition) = condition := by
  cases connective.shape condition with
  | unit =>
      rw [split_unit]
      rfl
  | zero =>
      rw [split_zero]
      rfl
  | wrap members =>
      have several := (plain_wrap.mp (plain_of_normal_wrap normal)).1
      rw [split_wrap]
      match members, several with
      | _ :: _ :: _, _ => rfl
  | other varies different =>
      rw [split_other varies different]
      rfl

theorem split_collect {members : List Condition}
    (loose : Loose connective.wrap shared members) :
    connective.split (connective.collect (some members)) = some members := by
  match members, loose with
  | [], _ => exact split_unit
  | [single], ⟨plain, other⟩ =>
      apply split_other
      · rintro value rfl
        cases plain _ List.mem_cons_self
      · rintro inner rfl
        exact other inner List.mem_cons_self
  | _ :: _ :: _, _ => exact split_wrap

/-- The members of a join are the members of its sides. -/
theorem split_join (leftNormal : left.Normal shared) (rightNormal : right.Normal shared) :
    connective.split (connective.join left right) =
      Option.map₂ (· ++ ·) (connective.split left) (connective.split right) := by
  rw [join_eq_collect]
  cases leftSplit : connective.split left with
  | none => exact split_zero
  | some lefts =>
      cases rightSplit : connective.split right with
      | none => exact split_zero
      | some rights =>
          apply split_collect
          exact Condition.loose_append (loose_of_split leftNormal leftSplit)
            (loose_of_split rightNormal rightSplit)

theorem join_assoc (leftNormal : left.Normal shared) (middleNormal : middle.Normal shared)
    (rightNormal : right.Normal shared) :
    connective.join (connective.join left middle) right =
      connective.join left (connective.join middle right) := by
  rw [@join_eq_collect _ (connective.join left middle),
    @join_eq_collect _ left (connective.join middle right), split_join leftNormal middleNormal,
    split_join middleNormal rightNormal, Option.map₂_assoc List.append_assoc]

theorem unit_join (normal : condition.Normal shared) :
    connective.join (.const connective.unit) condition = condition := by
  rw [join_eq_collect, split_unit]
  calc
    _ = connective.collect (connective.split condition) := by
      cases connective.split condition <;> rfl
    _ = condition := collect_split normal

theorem join_unit (normal : condition.Normal shared) :
    connective.join condition (.const connective.unit) = condition := by
  rw [join_eq_collect, split_unit]
  calc
    _ = connective.collect (connective.split condition) := by
      cases connective.split condition with
      | none => rfl
      | some members => rw [Option.map₂_some_some, List.append_nil]
    _ = condition := collect_split normal

theorem zero_join (connective : Connective) (condition : Condition) :
    connective.join (.const !connective.unit) condition = .const !connective.unit := by
  rw [join_eq_collect, split_zero]
  rfl

theorem join_zero (connective : Connective) (condition : Condition) :
    connective.join condition (.const !connective.unit) = .const !connective.unit := by
  rw [join_eq_collect, split_zero, Option.map₂_none_right]
  rfl

end Laws

end Connective

/-- The laws of joining conditions in normal form. The absorbing constant needs no normal form. -/
structure JoinLaws (good : Condition → Prop) (join : Condition → Condition → Condition)
    (unit : Bool) : Prop where
  closed : ∀ left right, good left → good right → good (join left right)
  associative : ∀ left middle right, good left → good middle → good right →
    join (join left middle) right = join left (join middle right)
  unit_left : ∀ condition, good condition → join (.const unit) condition = condition
  unit_right : ∀ condition, good condition → join condition (.const unit) = condition
  absorbing_left : ∀ condition, join (.const !unit) condition = .const !unit
  absorbing_right : ∀ condition, join condition (.const !unit) = .const !unit

theorem Connective.join_laws (connective : Connective) (shared : UInt32 → Prop) :
    JoinLaws (Normal shared) connective.join connective.unit where
  closed _ _ := connective.normal_join
  associative _ _ _ := join_assoc
  unit_left _ := unit_join
  unit_right _ := join_unit
  absorbing_left := connective.zero_join
  absorbing_right := connective.join_zero

/-- Outside of the normal form the grouping matters: the constant inside of the first condition
decides only where nothing else is left of the join. -/
example : ∃ left middle right : Condition,
    (left.both middle).both right ≠ left.both (middle.both right) :=
  ⟨.all [.const false], .const true, .tag "rack", by decide⟩

namespace Language

/-- The trees of a chain: its operands in their order, joined two at a time in any parentheses. -/
inductive Grouped (join : Expr → Expr → Expr) : List Expr → Expr → Prop
  | single {operand : Expr} : Grouped join [operand] operand
  | pair {fronts backs : List Expr} {left right : Expr} :
      Grouped join fronts left → Grouped join backs right →
        Grouped join (fronts ++ backs) (join left right)

theorem Grammar.Folded.grouped {join : Expr → Expr → Expr} {operands : List Expr} {expr : Expr}
    (folded : Folded join operands expr) : Grouped join operands expr := by
  induction folded with
  | single => exact .single
  | @halves operands _ _ _ _ _ left right =>
      rw [← List.take_append_drop (operands.length / 2) operands]
      exact .pair left right

theorem grouped_balanced (join : Expr → Expr → Expr) (first : Expr) (rest : List Expr) :
    Grouped join (first :: rest) (Expr.balanced join first rest) :=
  (folded_balanced join first rest).grouped

end Language

open TagPolicy.Language (Grouped)

section Lowering

variable {connective : Connective} {known : List Predicate} {expr first second : Expr}
  {condition : Condition} {operands : List Expr}

theorem normal_of_lower (lowered : lower known expr = .ok condition) :
    condition.Normal fun _ => True := by
  apply normal_lower _ _ lowered
  · exact fun _ _ leaf => Condition.normal_of_is_leaf leaf
  · exact fun _ _ _ _ => trivial

theorem forall_normal_of_mapM {conditions : List Condition}
    (lowered : operands.mapM (lower known) = .ok conditions) :
    ∀ condition ∈ conditions, condition.Normal fun _ => True := by
  induction operands generalizing conditions with
  | nil =>
      cases pure_eq_ok.mp lowered
      simp
  | cons operand operands induction =>
      rw [List.mapM_cons] at lowered
      obtain ⟨head, lowerHead, lowered⟩ := bind_eq_ok.mp lowered
      obtain ⟨tail, lowerTail, finished⟩ := bind_eq_ok.mp lowered
      cases pure_eq_ok.mp finished
      exact List.forall_mem_cons.mpr ⟨normal_of_lower lowerHead, induction lowerTail⟩

namespace Connective

def joinAll (connective : Connective) (conditions : List Condition) : Condition :=
  conditions.foldr connective.join (.const connective.unit)

variable {shared : UInt32 → Prop}

theorem normal_join_all {conditions : List Condition}
    (normal : ∀ condition ∈ conditions, condition.Normal shared) :
    (connective.joinAll conditions).Normal shared := by
  induction conditions with
  | nil => exact .const
  | cons head tail induction =>
      obtain ⟨normalHead, normalTail⟩ := List.forall_mem_cons.mp normal
      exact connective.normal_join normalHead (induction normalTail)

theorem join_all_append {fronts backs : List Condition}
    (front : ∀ condition ∈ fronts, condition.Normal shared)
    (back : ∀ condition ∈ backs, condition.Normal shared) :
    connective.joinAll (fronts ++ backs) =
      connective.join (connective.joinAll fronts) (connective.joinAll backs) := by
  induction fronts with
  | nil => exact (unit_join (normal_join_all back)).symm
  | cons head tail induction =>
      obtain ⟨normalHead, normalTail⟩ := List.forall_mem_cons.mp front
      calc connective.joinAll (head :: tail ++ backs)
          = connective.join head (connective.joinAll (tail ++ backs)) := rfl
        _ = connective.join head
              (connective.join (connective.joinAll tail) (connective.joinAll backs)) := by
            rw [induction normalTail]
        _ = connective.join (connective.joinAll (head :: tail)) (connective.joinAll backs) :=
            (join_assoc normalHead (normal_join_all normalTail) (normal_join_all back)).symm

end Connective

/-- The tree of a chain joins what its operands compile to, or fails as the first that fails. -/
theorem lower_grouped (grouped : Grouped connective.expr operands expr) :
    lower known expr = connective.joinAll <$> operands.mapM (lower known) := by
  induction grouped with
  | @single operand =>
      rw [List.mapM_cons, List.mapM_nil]
      cases lowered : lower known operand with
      | error fault => rfl
      | ok condition =>
          have joined := connective.join_unit (normal_of_lower lowered)
          exact congrArg Except.ok joined.symm
  | @pair fronts backs left right _ _ front back =>
      rw [connective.lower_expr, List.mapM_append, front, back]
      cases lowerFronts : fronts.mapM (lower known) with
      | error fault => rfl
      | ok fronts =>
          cases lowerBacks : backs.mapM (lower known) with
          | error fault => rfl
          | ok backs =>
              have joined := connective.join_all_append (forall_normal_of_mapM lowerFronts)
                (forall_normal_of_mapM lowerBacks)
              exact congrArg Except.ok joined.symm

theorem lower_eq_of_grouped (connective : Connective)
    (grouped : Grouped connective.expr operands first)
    (also : Grouped connective.expr operands second) : lower known first = lower known second := by
  rw [lower_grouped grouped, lower_grouped also]

end Lowering

namespace Language

/-- Expressions that become the same by parenthesizing chains in them anew, anywhere and any number
of times. -/
inductive Expr.Regrouped : Expr → Expr → Prop
  | conjunction {operands : List Expr} {first second : Expr} :
      Grouped .and operands first → Grouped .and operands second → Regrouped first second
  | disjunction {operands : List Expr} {first second : Expr} :
      Grouped .or operands first → Grouped .or operands second → Regrouped first second
  | and {left right newLeft newRight : Expr} :
      Regrouped left newLeft → Regrouped right newRight →
        Regrouped (.and left right) (.and newLeft newRight)
  | or {left right newLeft newRight : Expr} :
      Regrouped left newLeft → Regrouped right newRight →
        Regrouped (.or left right) (.or newLeft newRight)
  | not {operand newOperand : Expr} :
      Regrouped operand newOperand → Regrouped (.not operand) (.not newOperand)
  | trans {first second third : Expr} :
      Regrouped first second → Regrouped second third → Regrouped first third

inductive Statement.Regrouped : Statement → Statement → Prop
  | define {name : String} {body newBody : Expr} {line : Nat} :
      body.Regrouped newBody → Regrouped (.define name body line) (.define name newBody line)
  | rule {effect : Effect} {condition newCondition : Expr} {line : Nat} :
      condition.Regrouped newCondition →
        Regrouped (.rule effect condition line) (.rule effect newCondition line)

end Language

theorem lower_regrouped {known : List Predicate} {first second : Expr}
    (regrouped : first.Regrouped second) : lower known first = lower known second := by
  induction regrouped with
  | conjunction grouped also => exact lower_eq_of_grouped .conjunction grouped also
  | disjunction grouped also => exact lower_eq_of_grouped .disjunction grouped also
  | and _ _ left right => rw [lower, lower, left, right]
  | or _ _ left right => rw [lower, lower, left, right]
  | not _ operand => rw [lower, lower, operand]
  | trans _ _ first second => exact first.trans second

theorem compile_statements_regrouped {known : List Predicate} {before : Nat}
    {first second : List Statement} (regrouped : List.Forall₂ Statement.Regrouped first second) :
    compileStatements known before first = compileStatements known before second := by
  induction regrouped generalizing known before with
  | nil => rfl
  | cons statement _ induction =>
      cases statement with
      | define body =>
          rw [compileStatements, compileStatements, lower_regrouped body]
          simp only [induction]
      | rule condition =>
          rw [compileStatements, compileStatements, lower_regrouped condition]
          simp only [induction]

namespace Table

/-- The parentheses of a chain cannot be told from a table. Two trees of the same operands compile
to the same condition or fail for the same reason, whatever predicates are known, and the tree that
a chain is read as is one of them; so documents that differ in such parentheses have the same table.
What compiles is in normal form, and there the joins are associative, with a unit and an absorbing
constant. -/
theorem regrouping_exact :
    (∀ known operands first second, Grouped .and operands first → Grouped .and operands second →
      lower known first = lower known second) ∧
    (∀ known operands first second, Grouped .or operands first → Grouped .or operands second →
      lower known first = lower known second) ∧
    (∀ join first rest, Grouped join (first :: rest) (Expr.balanced join first rest)) ∧
    (∀ version (first second : Document),
      List.Forall₂ Statement.Regrouped first.statements second.statements →
        ofDocument version first = ofDocument version second) ∧
    (∀ known expr condition, lower known expr = .ok condition →
      condition.Normal fun _ => True) ∧
    ∀ shared, JoinLaws (Normal shared) Condition.both true ∧
      JoinLaws (Normal shared) Condition.either false := by
  refine ⟨?_, ?_, Language.grouped_balanced, ?_, fun _ _ _ => normal_of_lower, ?_⟩
  · exact fun _ _ _ _ grouped also => lower_eq_of_grouped .conjunction grouped also
  · exact fun _ _ _ _ grouped also => lower_eq_of_grouped .disjunction grouped also
  · intro version first second regrouped
    rw [ofDocument, ofDocument, compile_statements_regrouped regrouped]
  · intro shared
    exact ⟨Connective.conjunction.join_laws shared, Connective.disjunction.join_laws shared⟩

def chainText : String :=
  "DEFINE [near] AS tag(north)\nALLOW IF tag(staff) AND TRUE AND [near] AND tag(badge)"

def nestedText : String :=
  "DEFINE [near] AS tag(north)\nALLOW IF tag(staff) AND (TRUE AND ([near] AND tag(badge)))"

def chainTable : Table where
  schemaVersion := "1"
  predicates := [⟨"near", .tag "north"⟩]
  rules := [⟨.all [.tag "staff", .tag "north", .tag "badge"], .allow, 1, 2⟩]

def near : Statement := .define "near" (.tag "north") 1

def chainDocument : Document :=
  ⟨[near, .rule .allow
    (.and (.and (.tag "staff") (.literal true)) (.and (.reference "near") (.tag "badge"))) 2]⟩

def nestedDocument : Document :=
  ⟨[near, .rule .allow
    (.and (.tag "staff") (.and (.literal true) (.and (.reference "near") (.tag "badge")))) 2]⟩

theorem nested_chain_is_same :
    Document.parse chainText = .ok chainDocument ∧
      Document.parse nestedText = .ok nestedDocument ∧
      ofDocument "1" chainDocument = .ok chainTable ∧
      ofDocument "1" nestedDocument = .ok chainTable := by
  obtain ⟨-, -, -, sameTable, -⟩ := regrouping_exact
  have balanced : Grouped .and [.tag "staff", .literal true, .reference "near", .tag "badge"]
      (.and (.and (.tag "staff") (.literal true)) (.and (.reference "near") (.tag "badge"))) :=
    .pair (.pair .single .single) (.pair .single .single)
  have nested : Grouped .and [.tag "staff", .literal true, .reference "near", .tag "badge"]
      (.and (.tag "staff") (.and (.literal true) (.and (.reference "near") (.tag "badge")))) :=
    .pair .single (.pair .single (.pair .single .single))
  have regrouped :
      List.Forall₂ Statement.Regrouped chainDocument.statements nestedDocument.statements :=
    .cons (.define (.conjunction .single .single))
      (.cons (.rule (.conjunction balanced nested)) .nil)
  have compiled : ofDocument "1" chainDocument = .ok chainTable := by decide +kernel
  refine ⟨by decide +kernel, by decide +kernel, compiled, ?_⟩
  rw [← sameTable "1" _ _ regrouped]
  exact compiled

end Table

end TagPolicy
