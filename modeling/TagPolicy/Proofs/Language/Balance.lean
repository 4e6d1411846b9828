import Mathlib.Data.Nat.Log
import TagPolicy.Policy.Evaluation
import TagPolicy.Proofs.Language.Expressions
import TagPolicy.Proofs.Policy.Regrouping

/-!
Long chains stay shallow. The tree of a chain adds to the depth of its operands no more than the
binary logarithm of their number, rounded up, and exactly that if they are all equally deep. It holds
all operands in their order, and its truth value is theirs taken together. A chain is read wherever
its operands are read one by one, and is refused only where its tree is too deep.
-/

namespace TagPolicy.Language

open Grammar
open Text (Position)

def Expr.holds (facts : Facts) (meaning : String → Bool) : Expr → Bool
  | and left right => left.holds facts meaning && right.holds facts meaning
  | or left right => left.holds facts meaning || right.holds facts meaning
  | not operand => !operand.holds facts meaning
  | tag name => facts.tags.contains name
  | attr name comparison value => comparison.holds (facts.attributes.get? name) value
  | literal value => value
  | reference name => meaning name

inductive Chain
  | conjunction
  | disjunction

namespace Chain

def keyword : Chain → String
  | conjunction => "and"
  | disjunction => "or"

def join : Chain → Expr → Expr → Expr
  | conjunction => .and
  | disjunction => .or

def category : Chain → Category
  | conjunction => .conjunction
  | disjunction => .disjunction

def operand : Chain → Category
  | conjunction => .unary
  | disjunction => .conjunction

def together : Chain → List Bool → Bool
  | conjunction => fun values => values.all id
  | disjunction => fun values => values.any id

variable (chain : Chain) {left right expr : Expr} {operands : List Expr}

theorem depth_join : (chain.join left right).depth = max left.depth right.depth + 1 := by
  cases chain <;> rfl

theorem holds_join {facts : Facts} {meaning : String → Bool} :
    (chain.join left right).holds facts meaning =
      chain.together [left.holds facts meaning, right.holds facts meaning] := by
  cases chain <;> simp [join, together, Expr.holds]

theorem together_append (fronts backs : List Bool) :
    chain.together (fronts ++ backs) = chain.together [chain.together fronts, chain.together backs] := by
  cases chain <;> simp [together]

section Trees

/-- A list and its longer half, where the first half is the shorter one. -/
theorem clog_halves {count : Nat} (several : 2 ≤ count) :
    Nat.clog 2 count = Nat.clog 2 (count - count / 2) + 1 := by
  have half : (count + 2 - 1) / 2 = count - count / 2 := by omega
  rw [Nat.clog_of_two_le (by decide) several, half]

theorem depth_folded_le {depth : Nat} (folded : Folded chain.join operands expr)
    (each : ∀ operand ∈ operands, operand.depth ≤ depth) :
    expr.depth ≤ depth + Nat.clog 2 operands.length := by
  induction folded with
  | single =>
      have alone := each _ List.mem_cons_self
      omega
  | @halves operands left right several _ _ leftDepth rightDepth =>
      have front := leftDepth fun operand inside => each operand (List.mem_of_mem_take inside)
      have back := rightDepth fun operand inside => each operand (List.mem_of_mem_drop inside)
      have shorter : Nat.clog 2 (operands.length / 2) ≤
          Nat.clog 2 (operands.length - operands.length / 2) := Nat.clog_mono_right 2 (by omega)
      rw [List.length_take, Nat.min_eq_left (Nat.div_le_self _ _)] at front
      rw [List.length_drop] at back
      rw [chain.depth_join, clog_halves several]
      omega

/-- The longer half of the operands alone makes the tree this deep. -/
theorem le_depth_folded {depth : Nat} (folded : Folded chain.join operands expr)
    (each : ∀ operand ∈ operands, depth ≤ operand.depth) :
    depth + Nat.clog 2 operands.length ≤ expr.depth := by
  induction folded with
  | single => simpa using each
  | @halves operands left right several _ _ _ rightDepth =>
      have back := rightDepth fun operand inside => each operand (List.mem_of_mem_drop inside)
      rw [List.length_drop] at back
      rw [chain.depth_join, clog_halves several]
      omega

theorem depth_folded {depth : Nat} (folded : Folded chain.join operands expr)
    (each : ∀ operand ∈ operands, operand.depth = depth) :
    expr.depth = depth + Nat.clog 2 operands.length := by
  apply Nat.le_antisymm
  · exact chain.depth_folded_le folded fun operand inside => Nat.le_of_eq (each operand inside)
  · exact chain.le_depth_folded folded fun operand inside => Nat.le_of_eq (each operand inside).symm

theorem holds_grouped (facts : Facts) (meaning : String → Bool)
    (grouped : Grouped chain.join operands expr) :
    expr.holds facts meaning =
      chain.together (operands.map fun operand => operand.holds facts meaning) := by
  induction grouped with
  | single => cases chain <;> simp [together]
  | pair _ _ front back =>
      rw [chain.holds_join, front, back, List.map_append, chain.together_append]

end Trees

end Chain

section Reading

variable {scope : Scope} {nesting : Nat} {category : Category} {tokens tail rest : List Token}
  {expr : Expr} {error : SourceError}

theorem takes_read (category : Category) :
    Takes (category.read scope nesting) (scope.Writes category nesting) := by
  have primary : Takes (readPrimary scope (scope.inner nesting)) (scope.Writes .primary nesting) :=
    takes_primary fun fewer _ => takes_read_expr fewer
  cases category with
  | disjunction => exact takes_read_expr nesting
  | conjunction => exact takes_chain .and (takes_unary primary) .and
  | unary => exact takes_unary primary
  | primary => exact primary

/-- What is read on its own is read in front of anything that does not go on with it. -/
theorem accepts_of_read (read : category.read scope nesting tokens = .ok (expr, [])) :
    Accepts (category.read scope nesting) category.Ends (tokens, expr) := by
  obtain ⟨front, split, writes⟩ := takes_read category read
  rw [List.append_nil] at split
  rw [split]
  exact accepts_of_derives writes.derived writes.resolved writes.shallow

/-- An AND chain that no OR follows is a whole expression, and so is one that is refused. -/
theorem read_expr_of_conjunction (ended : nextIs "or" rest = false)
    (read : Category.conjunction.read scope nesting tokens = .ok (expr, rest)) :
    readExpr scope nesting tokens = .ok (expr, rest) := by
  obtain ⟨_, -, writes⟩ := takes_read .conjunction read
  have alone : readOperands "or" (Category.conjunction.read scope nesting) rest rest =
      .ok ([], rest) := by
    cases rest with
    | nil => rfl
    | cons token rest =>
        rw [readOperands, ended]
        rfl
  have single : Expr.balanced .or expr [] = expr := (folded_iff.mp .single).symm
  rw [read_expr_eq]
  change readChain scope "or" .or (Category.conjunction.read scope nesting) tokens = _
  rw [readChain, read, Outcome.ok_bind]
  dsimp only
  rw [alone, Outcome.ok_bind, single]
  exact bounded_eq_ok.mpr ⟨writes.shallow, rfl, rfl⟩

theorem read_expr_of_refused_conjunction
    (refused : Category.conjunction.read scope nesting tokens = .error error) :
    readExpr scope nesting tokens = .error error := by
  rw [read_expr_eq]
  change readChain scope "or" .or (Category.conjunction.read scope nesting) tokens = _
  rw [readChain, refused]
  rfl

namespace Chain

variable (chain : Chain) {first : Operand} {others : List Operand}

theorem read_eq : chain.category.read scope nesting =
    readChain scope chain.keyword chain.join (chain.operand.read scope nesting) := by
  cases chain with
  | conjunction => rfl
  | disjunction => exact read_expr_eq scope nesting

theorem operand_ends {word : Token} (spelled : IsKeyword chain.keyword word) :
    chain.operand.Ends (word :: rest) := by
  cases chain with
  | conjunction => trivial
  | disjunction => exact spelled.next "and" rest

theorem ends_parts (ended : chain.category.Ends rest) :
    chain.operand.Ends rest ∧ nextIs chain.keyword rest = false := by
  cases chain with
  | conjunction => exact ⟨trivial, ended⟩
  | disjunction => exact ⟨ended.2, ended.1⟩

theorem read_repeated
    (alone : ∀ operand ∈ first :: others,
      chain.operand.read scope nesting operand.1 = .ok (operand.2, []))
    (repeated : Repeated chain.keyword (others.map Prod.fst) tail)
    (ended : chain.category.Ends rest) :
    chain.category.read scope nesting (first.1 ++ tail ++ rest) =
      bounded (scope.here (first.1 ++ tail ++ rest))
        (Expr.balanced chain.join first.2 (others.map Prod.snd)) rest := by
  obtain ⟨operandEnds, last⟩ := chain.ends_parts ended
  rw [chain.read_eq]
  apply read_chain_of_repeated _ _ repeated operandEnds last
  · intro word later spelled
    exact chain.operand_ends spelled
  · intro operand inside
    exact accepts_of_read (alone operand inside)

/-- A chain is read as such, and as an expression that it is the whole of. -/
def Whole (category : Category) : Prop := category = chain.category ∨ category = .disjunction

theorem read_whole (whole : chain.Whole category) (ended : category.Ends rest)
    (alone : ∀ operand ∈ first :: others,
      chain.operand.read scope nesting operand.1 = .ok (operand.2, []))
    (repeated : Repeated chain.keyword (others.map Prod.fst) tail) :
    category.read scope nesting (first.1 ++ tail ++ rest) =
      bounded (scope.here (first.1 ++ tail ++ rest))
        (Expr.balanced chain.join first.2 (others.map Prod.snd)) rest := by
  rcases whole with rfl | rfl
  · exact chain.read_repeated alone repeated ended
  · cases chain with
    | disjunction => exact Chain.disjunction.read_repeated alone repeated ended
    | conjunction =>
        have ends : Chain.conjunction.category.Ends rest := ended.2
        have inner := Chain.conjunction.read_repeated alone repeated ends
        change readExpr scope nesting _ = _
        rw [bounded] at inner ⊢
        split
        · rw [if_pos ‹_›] at inner
          exact read_expr_of_conjunction ended.1 inner
        · rw [if_neg ‹_›] at inner
          exact read_expr_of_refused_conjunction inner

/-- Operands that are read one by one are read as a chain, if their depth and the logarithm of their
number stay within the bound. Nothing of them is lost or changed. If all are equally deep, the depth of
the chain is no less, and beyond the bound it is refused. -/
theorem read_exact (scope : Scope) (nesting : Nat)
    (alone : ∀ operand ∈ first :: others,
      chain.operand.read scope nesting operand.1 = .ok (operand.2, []))
    (repeated : Repeated chain.keyword (others.map Prod.fst) tail)
    (whole : chain.Whole category) :
    ∃ expr, Grouped chain.join ((first :: others).map Prod.snd) expr ∧
      (∀ facts meaning, expr.holds facts meaning =
        chain.together ((first :: others).map fun operand => operand.2.holds facts meaning)) ∧
      (∀ depth, (∀ operand ∈ first :: others, operand.2.depth ≤ depth) →
        depth + Nat.clog 2 (first :: others).length ≤ 128 →
          expr.depth ≤ depth + Nat.clog 2 (first :: others).length ∧
            ∀ rest, category.Ends rest →
              category.read scope nesting (first.1 ++ tail ++ rest) = .ok (expr, rest)) ∧
      ∀ depth, (∀ operand ∈ first :: others, operand.2.depth = depth) →
        expr.depth = depth + Nat.clog 2 (first :: others).length ∧
          ∀ rest, category.Ends rest →
            category.read scope nesting (first.1 ++ tail ++ rest) =
              if depth + Nat.clog 2 (first :: others).length ≤ 128 then .ok (expr, rest)
              else .error ⟨scope.here (first.1 ++ tail ++ rest), .tooDeep⟩ := by
  have folded : Folded chain.join ((first :: others).map Prod.snd)
      (Expr.balanced chain.join first.2 (others.map Prod.snd)) := folded_balanced _ _ _
  have reads := fun rest (ended : category.Ends rest) =>
    chain.read_whole whole ended alone repeated
  have count : ((first :: others).map Prod.snd).length = (first :: others).length :=
    List.length_map _
  refine ⟨_, folded.grouped, ?_, ?_, ?_⟩
  · intro facts meaning
    rw [chain.holds_grouped facts meaning folded.grouped, List.map_map]
    rfl
  · intro depth each within
    have bound := chain.depth_folded_le folded (List.forall_mem_map.mpr each)
    rw [count] at bound
    refine ⟨bound, fun rest ended => ?_⟩
    rw [reads rest ended]
    exact bounded_eq_ok.mpr ⟨Nat.le_trans bound within, rfl, rfl⟩
  · intro depth each
    have exact := chain.depth_folded folded (List.forall_mem_map.mpr each)
    rw [count] at exact
    refine ⟨exact, fun rest ended => ?_⟩
    rw [reads rest ended, bounded, exact]
    rfl

/-- An operand two levels below the bound, alone and any number of times behind an AND. -/
def deepOperand : Operand :=
  (List.replicate 125 ⟨.word "NOT", .start⟩ ++ [⟨.braced "rack", .start⟩],
    (Expr.tag "rack").negated 125)

def deepOperandsBehind : Nat → List Token
  | 0 => []
  | count + 1 => ⟨.word "and", .start⟩ :: deepOperand.1 ++ deepOperandsBehind count

theorem repeated_deep_operands (count : Nat) :
    Repeated "and" ((List.replicate count deepOperand).map Prod.fst) (deepOperandsBehind count) := by
  induction count with
  | zero => exact .nil
  | succ count induction => exact .cons (.word (by decide)) induction

theorem deepest_chain_is_read_and_longer_refused :
    deepOperand.2.depth = 126 ∧
      Category.unary.read ⟨[], .start⟩ 0 deepOperand.1 = .ok (deepOperand.2, []) ∧
      (∃ expr, expr.depth = 128 ∧ Category.conjunction.read ⟨[], .start⟩ 0
        (deepOperand.1 ++ deepOperandsBehind 3 ++ []) = .ok (expr, [])) ∧
      readExpr ⟨[], .start⟩ 0 (deepOperand.1 ++ deepOperandsBehind 4 ++ []) =
        .error ⟨.start, .tooDeep⟩ := by
  have depth : deepOperand.2.depth = 126 := Expr.depth_negated _ 125
  have alone : Category.unary.read ⟨[], .start⟩ 0 deepOperand.1 = .ok (deepOperand.2, []) := by
    decide +kernel
  have same : ∀ count, ∀ operand ∈ deepOperand :: List.replicate count deepOperand,
      operand = deepOperand := by
    intro count operand inside
    rw [← List.replicate_succ] at inside
    exact List.eq_of_mem_replicate inside
  obtain ⟨four, -, -, -, fours⟩ := Chain.conjunction.read_exact ⟨[], .start⟩ 0
    (fun operand inside => same 3 operand inside ▸ alone) (repeated_deep_operands 3) (.inl rfl)
  obtain ⟨five, -, -, -, fives⟩ := Chain.conjunction.read_exact ⟨[], .start⟩ 0
    (fun operand inside => same 4 operand inside ▸ alone) (repeated_deep_operands 4) (.inr rfl)
  obtain ⟨depthOfFour, readFour⟩ := fours 126 fun operand inside => same 3 operand inside ▸ depth
  obtain ⟨-, readFive⟩ := fives 126 fun operand inside => same 4 operand inside ▸ depth
  have exponentOfFour : Nat.clog 2 (deepOperand :: List.replicate 3 deepOperand).length = 2 := rfl
  have exponentOfFive : Nat.clog 2 (deepOperand :: List.replicate 4 deepOperand).length = 3 := rfl
  rw [exponentOfFour] at depthOfFour readFour
  rw [exponentOfFive] at readFive
  exact ⟨depth, alone, ⟨four, depthOfFour, readFour [] rfl⟩, readFive [] ⟨rfl, rfl⟩⟩

end Chain

end Reading

end TagPolicy.Language
