import Mathlib.Algebra.Order.BigOperators.Group.List
import TagPolicy.Proofs.Language.Acceptance

/-!
A document is no larger than its text: every node of an expression takes a token of its own, and every
token takes a character of its own.
-/

namespace TagPolicy.Language

open Grammar
open Outcome (bind_eq_ok pure_eq_ok)
open Text (Position)

section Tokens

variable {keyword : String} {join : Expr → Expr → Expr} {operands : List Expr} {expr : Expr}
  {tokens : List Token} {nesting : Nat}

/-- A chain has one node more for every operand after the first. -/
theorem size_folded (joins : Joins join) (folded : Folded join operands expr) :
    expr.size + 1 = (operands.map fun operand => operand.size + 1).sum := by
  induction folded with
  | single => simp
  | @halves operands left right several _ _ inLeft inRight =>
      have joined : (join left right).size = left.size + right.size + 1 := by
        cases joins <;> rfl
      have whole := List.take_append_drop (operands.length / 2) operands
      rw [← whole, List.map_append, List.sum_append, ← inLeft, ← inRight, joined]
      omega

theorem length_repeated {parts : List (List Token)} (repeated : Repeated keyword parts tokens) :
    tokens.length = (parts.map fun part => part.length + 1).sum := by
  induction repeated with
  | nil => rfl
  | cons _ _ induction =>
      rw [List.length_append, List.length_cons, induction, List.map_cons, List.sum_cons]

theorem size_chain (joins : Joins join) {first : Operand} {others : List Operand}
    (each : ∀ operand ∈ first :: others, operand.2.size ≤ operand.1.length)
    (repeated : Repeated keyword (others.map Prod.fst) tokens)
    (folded : Folded join ((first :: others).map Prod.snd) expr) :
    expr.size ≤ (first.1 ++ tokens).length := by
  have nodes := size_folded joins folded
  have words := length_repeated repeated
  rw [List.map_cons, List.map_cons, List.sum_cons, List.map_map] at nodes
  rw [List.map_map] at words
  have leading := each first List.mem_cons_self
  have bound : (others.map ((fun operand => operand.size + 1) ∘ Prod.snd)).sum ≤
      (others.map ((fun part => part.length + 1) ∘ Prod.fst)).sum :=
    List.sum_le_sum fun operand inside =>
      Nat.succ_le_succ (each operand (List.mem_cons_of_mem first inside))
  rw [List.length_append]
  omega

theorem size_leaf (leaf : Leaf tokens expr) : expr.size ≤ tokens.length := by
  cases leaf <;> simp [Expr.size]

theorem size_derives {category : Category} (derived : Derives category nesting tokens expr) :
    expr.size ≤ tokens.length := by
  induction derived with
  | or _ repeated folded operands => exact size_chain .or operands repeated folded
  | and _ repeated folded operands => exact size_chain .and operands repeated folded
  | not _ _ operand => exact Nat.succ_le_succ operand
  | primary _ inner => exact inner
  | parens _ inner =>
      rw [List.length_append, List.length_cons]
      omega
  | leaf leaf => exact size_leaf leaf

theorem size_statement {statement : Statement} (derived : IsStatement nesting tokens statement) :
    statement.expr.size ≤ tokens.length := by
  cases derived with
  | define _ _ body =>
      have inner := size_derives body
      simp only [Statement.expr, List.length_cons]
      omega
  | rule _ condition =>
      have inner := size_derives condition
      simp only [Statement.expr, List.length_cons]
      omega
  | ruleIf _ _ condition =>
      have inner := size_derives condition
      simp only [Statement.expr, List.length_cons]
      omega

def Document.size (document : Document) : Nat :=
  (document.statements.map fun statement => statement.expr.size).sum

theorem size_document {statements : List Statement}
    (document : IsDocument nesting tokens statements) :
    (statements.map fun statement => statement.expr.size).sum ≤ tokens.length := by
  induction document with
  | nil => exact Nat.le_refl _
  | cons first _ induction =>
      rw [List.map_cons, List.sum_cons, List.length_append]
      exact Nat.add_le_add (size_statement first) induction

end Tokens

section Characters

def Scan.pending : Scan → Nat
  | between | comment => 0
  | _ => 1

variable {scan next : Scan} {position : Position} {char : Char} {tokens : List Token}

theorem pending_begin (begun : begin position char = .ok (next, tokens)) :
    tokens.length + next.pending ≤ 1 := by
  unfold begin at begun
  repeat' split at begun
  all_goals cases begun
  all_goals simp [Scan.pending]

theorem pending_step (stepped : scan.step position char = .ok (next, tokens)) :
    tokens.length + next.pending ≤ scan.pending + 1 := by
  cases scan with
  | between => exact pending_begin stepped
  | comment =>
      cases stepped
      split <;> simp [Scan.pending]
  | word start seen =>
      rw [Scan.step] at stepped
      split at stepped
      · cases stepped
        simp [Scan.pending]
      · obtain ⟨⟨begun, found⟩, first, finished⟩ := bind_eq_ok.mp stepped
        cases pure_eq_ok.mp finished
        have few := pending_begin first
        change found.length + 1 + next.pending ≤ 1 + 1
        omega
  | name bracket start seen =>
      rw [Scan.step] at stepped
      split at stepped
      · dsimp only at stepped
        split at stepped
        · cases stepped
        · cases stepped
          simp [Scan.pending]
      · split at stepped
        · cases stepped
        · cases stepped
          simp [Scan.pending]
  | quoted start seen =>
      rw [Scan.step] at stepped
      repeat' split at stepped
      all_goals cases stepped
      all_goals simp [Scan.pending]
  | escape start seen =>
      cases stepped
      simp [Scan.pending]
  | comparison start first =>
      rw [Scan.step] at stepped
      split at stepped
      · cases stepped
        simp [Scan.pending]
      · cases stepped

/-- A text gives at most as many tokens as it has characters. -/
theorem length_of_run {chars : List Char} (ran : scan.run position chars = .ok tokens) :
    tokens.length ≤ chars.length + scan.pending := by
  induction chars generalizing scan position tokens with
  | nil =>
      cases scan <;> cases ran <;> simp [Scan.pending]
  | cons char rest induction =>
      rw [Scan.run] at ran
      obtain ⟨⟨next, emitted⟩, stepped, ran⟩ := bind_eq_ok.mp ran
      obtain ⟨later, runs, finished⟩ := bind_eq_ok.mp ran
      cases pure_eq_ok.mp finished
      have step := pending_step stepped
      have remaining := induction runs
      rw [List.length_append, List.length_cons]
      omega

/-- A document has no more nodes than its text has characters. -/
theorem size_of_parse {text : String} {document : Document}
    (parsed : Document.parse text = .ok document) : document.size ≤ text.toList.length := by
  obtain ⟨tokens, scanned, derived, -⟩ := Document.of_parse parsed
  have nodes : document.size ≤ tokens.length := size_document derived
  have words : tokens.length ≤ text.toList.length := length_of_run scanned
  exact Nat.le_trans nodes words

end Characters

end TagPolicy.Language
