import TagPolicy.Proofs.Language.Chains

/-!
The readers of expressions take exactly the expressions of the grammar off the front of the tokens,
as far as their names are defined and their trees are not too deep. What they take is found by
induction on the number of parentheses that may be open, and that they take all of it by induction on
the grammar.
-/

namespace TagPolicy.Language

open Grammar
open Outcome (bind_eq_ok pure_eq_ok)
open Text (Position sameWord same_word_congr)

variable {scope : Scope} {nesting : Nat} {category : Category} {keyword : String}
  {tokens rest : List Token} {expr operand : Expr}

/-- The reader of what stands in parentheses, if one more of them may be open. -/
def Scope.inner (scope : Scope) : Nat → Option (Reader Expr)
  | 0 => none
  | nesting + 1 => some (readExpr scope nesting)

theorem read_expr_eq (scope : Scope) (nesting : Nat) :
    readExpr scope nesting = readChains scope (scope.inner nesting) := by
  cases nesting <;> rfl

namespace Grammar.Category

def read (scope : Scope) (nesting : Nat) : Category → Reader Expr
  | disjunction => readExpr scope nesting
  | conjunction => readChain scope "and" .and (readUnary scope (scope.inner nesting))
  | unary => readUnary scope (scope.inner nesting)
  | primary => readPrimary scope (scope.inner nesting)

/-- What may come after an expression: no keyword of a chain that would go on. -/
def Ends : Category → List Token → Prop
  | disjunction, rest => nextIs "or" rest = false ∧ nextIs "and" rest = false
  | conjunction, rest => nextIs "and" rest = false
  | unary, _ | primary, _ => True

end Grammar.Category

/-- The tokens write the expression, and the bounds of the language allow it. -/
structure Scope.Writes (scope : Scope) (category : Category) (nesting : Nat) (tokens : List Token)
    (expr : Expr) : Prop where
  derived : Derives category nesting tokens expr
  resolved : expr.Resolved scope.defined
  shallow : expr.depth ≤ maxDepth

section Bounds

inductive Joins : (Expr → Expr → Expr) → Prop
  | and : Joins .and
  | or : Joins .or

variable {join : Expr → Expr → Expr} {left right : Expr} {defined : List String}
  {operands : List Expr}

theorem Joins.depth (joins : Joins join) (shallow : (join left right).depth ≤ maxDepth) :
    left.depth ≤ maxDepth ∧ right.depth ≤ maxDepth := by
  cases joins <;> rw [Expr.depth] at shallow <;> omega

theorem Joins.resolved (joins : Joins join) :
    (join left right).Resolved defined ↔ left.Resolved defined ∧ right.Resolved defined := by
  cases joins <;> exact List.forall_mem_append

theorem Joins.resolved_chain (joins : Joins join) (folded : Folded join operands expr) :
    expr.Resolved defined ↔ ∀ operand ∈ operands, operand.Resolved defined := by
  constructor
  · exact folded.forall_of fun _ _ whole => joins.resolved.mp whole
  · exact folded.of_forall fun _ _ left right => joins.resolved.mpr ⟨left, right⟩

theorem Joins.depth_chain (joins : Joins join) (folded : Folded join operands expr)
    (shallow : expr.depth ≤ maxDepth) : ∀ operand ∈ operands, operand.depth ≤ maxDepth := by
  exact folded.forall_of (fun _ _ whole => joins.depth whole) shallow

theorem Expr.resolved_negated (operand : Expr) (count : Nat) :
    (operand.negated count).Resolved defined ↔ operand.Resolved defined := by
  induction count with
  | zero => rfl
  | succ count induction => exact induction

theorem Expr.depth_pos (expr : Expr) : 0 < expr.depth := by
  cases expr <;> simp [Expr.depth]

end Bounds

section Nots

theorem leading_nots_not {word : Token} (spelled : IsKeyword "not" word) :
    leadingNots (word :: tokens) = ((leadingNots tokens).1 + 1, (leadingNots tokens).2) := by
  rw [leadingNots, spelled.next_self, if_pos rfl]

/-- What the next token is does not depend on the tokens after it. -/
theorem next_is_cons (token : Token) (rest other : List Token) :
    nextIs keyword (token :: rest) = nextIs keyword (token :: other) := by
  obtain ⟨lexeme, position⟩ := token
  cases lexeme <;> rfl

theorem leading_nots_other (other : nextIs "not" tokens = false) :
    leadingNots tokens = (0, tokens) := by
  cases tokens with
  | nil => rfl
  | cons token rest =>
      have first : nextIs "not" [token] = false := (next_is_cons token [] rest).trans other
      rw [leadingNots, first, if_neg Bool.false_ne_true]

/-- The NOTs that stand first negate what is read after them. -/
theorem derives_leading_nots {tail : List Token} :
    (leadingNots tokens).2 = tail ++ rest → Derives .unary nesting tail operand →
      ∃ front, tokens = front ++ rest ∧
        Derives .unary nesting front (operand.negated (leadingNots tokens).1) := by
  intro after derived
  induction tokens with
  | nil => exact ⟨tail, after, derived⟩
  | cons token tokens induction =>
      by_cases next : nextIs "not" (token :: tokens) = true
      · obtain ⟨word, others, same, spelled⟩ := is_keyword_of_next next
        cases same
        rw [leading_nots_not spelled] at after ⊢
        obtain ⟨front, split, inner⟩ := induction after
        exact ⟨token :: front, by rw [split, List.cons_append], .not spelled inner⟩
      · rw [leading_nots_other (Bool.eq_false_iff.mpr next)] at after ⊢
        exact ⟨tail, after, derived⟩

/-- The bound on the number of NOTs refuses nothing that the bound on the depth would not. -/
theorem read_unary_eq_ok {inner : Option (Reader Expr)} :
    readUnary scope inner tokens = .ok (expr, rest) ↔
      ∃ operand, readPrimary scope inner (leadingNots tokens).2 = .ok (operand, rest) ∧
        expr = operand.negated (leadingNots tokens).1 ∧ expr.depth ≤ maxDepth := by
  constructor
  · intro read
    simp only [readUnary] at read
    split at read
    · cases read
    · obtain ⟨⟨operand, after⟩, readOperand, finished⟩ := bind_eq_ok.mp read
      obtain ⟨shallow, rfl, rfl⟩ := bounded_eq_ok.mp finished
      exact ⟨operand, readOperand, rfl, shallow⟩
  · rintro ⟨operand, readOperand, rfl, shallow⟩
    have few : ¬ maxDepth ≤ (leadingNots tokens).1 := by
      have depth := Expr.depth_negated operand (leadingNots tokens).1
      have positive := operand.depth_pos
      omega
    simp only [readUnary, if_neg few]
    exact bind_eq_ok.mpr ⟨_, readOperand, bounded_eq_ok.mpr ⟨shallow, rfl, rfl⟩⟩

end Nots

section Starts

def Grammar.leafWords : List String := ["true", "false", "tag", "attr"]

theorem Grammar.Leaf.starts (leaf : Leaf tokens expr)
    (other : ∀ word ∈ leafWords, sameWord word keyword = Bool.false) (rest : List Token) :
    nextIs keyword (tokens ++ rest) = Bool.false := by
  cases leaf with
  | true spelled => exact (spelled.next keyword _).trans (other _ (by decide))
  | false spelled => exact (spelled.next keyword _).trans (other _ (by decide))
  | call spelled => exact (spelled.next keyword _).trans (other _ (by decide))
  | attr spelled => exact (spelled.next keyword _).trans (other _ (by decide))
  | braced => rfl
  | reference => rfl

theorem Grammar.Derives.primary_starts (derived : Derives .primary nesting tokens expr)
    (other : ∀ word ∈ leafWords, sameWord word keyword = Bool.false) (rest : List Token) :
    nextIs keyword (tokens ++ rest) = false := by
  cases derived with
  | parens => rfl
  | leaf leaf => exact leaf.starts other rest

/-- An expression starts with no other keyword than NOT and those of leaves. -/
theorem Grammar.Derives.starts (derived : Derives category nesting tokens expr)
    (other : ∀ word ∈ "not" :: leafWords, sameWord word keyword = false) (rest : List Token) :
    nextIs keyword (tokens ++ rest) = false := by
  induction derived generalizing rest with
  | or _ _ _ first =>
      rw [List.append_assoc]
      exact first _ List.mem_cons_self _
  | and _ _ _ first =>
      rw [List.append_assoc]
      exact first _ List.mem_cons_self _
  | not spelled => exact (spelled.next keyword _).trans (other _ List.mem_cons_self)
  | primary _ inner => exact inner rest
  | parens => rfl
  | leaf leaf => exact leaf.starts (List.forall_mem_cons.mp other).2 rest

theorem read_primary_leaf (leaf : Leaf tokens expr) (inner : Option (Reader Expr)) :
    readPrimary scope inner (tokens ++ rest) = readLeaf scope (tokens ++ rest) := by
  cases leaf with
  | true spelled => cases spelled; rfl
  | false spelled => cases spelled; rfl
  | call spelled => cases spelled; rfl
  | attr spelled => cases spelled; rfl
  | braced => rfl
  | reference => rfl

end Starts

section Soundness

theorem takes_primary
    (inside : ∀ fewer, nesting = fewer + 1 →
      Takes (readExpr scope fewer) (scope.Writes .disjunction fewer)) :
    Takes (readPrimary scope (scope.inner nesting)) (scope.Writes .primary nesting) := by
  intro tokens expr rest read
  unfold readPrimary at read
  split at read
  · rename_i opening after
    cases nesting with
    | zero => cases read
    | succ fewer =>
        obtain ⟨⟨inner, after⟩, readInner, closes⟩ := bind_eq_ok.mp read
        obtain ⟨rfl, closing, rfl⟩ := read_closing_eq_ok.mp closes
        obtain ⟨front, rfl, writes⟩ := inside fewer rfl readInner
        refine ⟨⟨.openParen, opening⟩ :: front ++ [⟨.closeParen, closing⟩], ?_, .parens writes.derived,
          writes.resolved, writes.shallow⟩
        simp only [List.cons_append, List.append_assoc, List.nil_append]
  · obtain ⟨front, split, leaf, resolved⟩ := read_leaf_eq_ok.mp read
    have positive : 1 ≤ maxDepth := by decide
    refine ⟨front, split, .leaf leaf, resolved, ?_⟩
    cases leaf <;> exact positive

theorem takes_unary
    (takes : Takes (readPrimary scope (scope.inner nesting)) (scope.Writes .primary nesting)) :
    Takes (readUnary scope (scope.inner nesting)) (scope.Writes .unary nesting) := by
  intro tokens expr rest read
  obtain ⟨operand, readOperand, rfl, shallow⟩ := read_unary_eq_ok.mp read
  obtain ⟨tail, split, writes⟩ := takes readOperand
  obtain ⟨front, whole, derived⟩ := derives_leading_nots split (.primary writes.derived)
  exact ⟨front, whole, derived, (Expr.resolved_negated operand _).mpr writes.resolved, shallow⟩

/-- The operands of a chain write what the chain does. -/
theorem takes_chain {join : Expr → Expr → Expr} {operand : Reader Expr} {tight : Category}
    (joins : Joins join) (takes : Takes operand (scope.Writes tight nesting))
    (derives : ∀ {first : Operand} {others : List Operand} {tail : List Token} {expr : Expr},
      (∀ operand ∈ first :: others, Derives tight nesting operand.1 operand.2) →
        Repeated keyword (others.map Prod.fst) tail →
          Folded join ((first :: others).map Prod.snd) expr →
            Derives category nesting (first.1 ++ tail) expr) :
    Takes (readChain scope keyword join operand) (scope.Writes category nesting) := by
  intro tokens expr rest read
  obtain ⟨front, split, first, others, tail, rfl, each, repeated, folded, shallow⟩ :=
    takes.chain read
  refine ⟨_, split, derives (fun operand inside => (each operand inside).derived) repeated folded,
    ?_, shallow⟩
  apply (joins.resolved_chain folded).mpr
  intro operand inside
  obtain ⟨writer, member, rfl⟩ := List.mem_map.mp inside
  exact (each writer member).resolved

theorem takes_chains
    (takes : Takes (readPrimary scope (scope.inner nesting)) (scope.Writes .primary nesting)) :
    Takes (readExpr scope nesting) (scope.Writes .disjunction nesting) := by
  rw [read_expr_eq]
  exact takes_chain .or (takes_chain .and (takes_unary takes) .and) .or

theorem takes_read_expr (nesting : Nat) :
    Takes (readExpr scope nesting) (scope.Writes .disjunction nesting) := by
  induction nesting with
  | zero => exact takes_chains (takes_primary fun fewer impossible => by cases impossible)
  | succ fewer induction =>
      exact takes_chains (takes_primary fun _ same => Nat.succ.inj same ▸ induction)

end Soundness

section Completeness

/-- Within the bounds, the operands of a chain are accepted if those within the bounds are. -/
theorem Joins.accepts {join : Expr → Expr → Expr} (joins : Joins join) {read : Reader Expr}
    {ends : List Token → Prop} {operands : List Operand}
    (folded : Folded join (operands.map Prod.snd) expr) (resolved : expr.Resolved scope.defined)
    (shallow : expr.depth ≤ maxDepth)
    (each : ∀ operand ∈ operands, operand.2.Resolved scope.defined →
      operand.2.depth ≤ maxDepth → Accepts read ends operand) :
    ∀ operand ∈ operands, Accepts read ends operand := by
  intro operand inside
  have member := List.mem_map_of_mem (f := Prod.snd) inside
  exact each operand inside ((joins.resolved_chain folded).mp resolved _ member)
    (joins.depth_chain folded shallow _ member)

theorem accepts_of_derives (derived : Derives category nesting tokens expr)
    (resolved : expr.Resolved scope.defined) (shallow : expr.depth ≤ maxDepth) :
    Accepts (category.read scope nesting) category.Ends (tokens, expr) := by
  induction derived with
  | @or nesting first others tokens expr _ repeated folded operands =>
      intro rest ended
      change readExpr scope nesting _ = _
      rw [read_expr_eq]
      have each := Joins.or.accepts folded resolved shallow operands
      have continues : ∀ word rest, IsKeyword "or" word →
          Category.conjunction.Ends (word :: rest) := by
        intro word rest spelled
        exact spelled.next "and" rest
      exact read_chain_of_folded continues each repeated folded shallow ended.2 ended.1
  | @and nesting first others tokens expr _ repeated folded operands =>
      intro rest ended
      have each := Joins.and.accepts folded resolved shallow operands
      exact read_chain_of_folded (fun _ _ _ => trivial) each repeated folded shallow trivial ended
  | @not nesting word tokens operand spelled _ induction =>
      intro rest _
      have less : operand.depth ≤ maxDepth := Nat.le_of_succ_le shallow
      have later := induction resolved less rest trivial
      obtain ⟨inner, readInner, negated, -⟩ := read_unary_eq_ok.mp later
      have whole : operand.not = inner.negated ((leadingNots (tokens ++ rest)).1 + 1) :=
        congrArg Expr.not negated
      change readUnary scope _ (word :: (tokens ++ rest)) = _
      apply read_unary_eq_ok.mpr
      rw [leading_nots_not spelled]
      exact ⟨inner, readInner, whole, shallow⟩
  | @primary nesting tokens expr derived induction =>
      intro rest _
      have start : nextIs "not" (tokens ++ rest) = false := derived.primary_starts (by decide) rest
      change readUnary scope _ (tokens ++ rest) = _
      apply read_unary_eq_ok.mpr
      rw [leading_nots_other start]
      exact ⟨expr, induction resolved shallow rest trivial, rfl, shallow⟩
  | @parens nesting tokens expr opening closing _ induction =>
      intro rest _
      have inner := induction resolved shallow (⟨.closeParen, closing⟩ :: rest) ⟨rfl, rfl⟩
      change readPrimary scope (some (readExpr scope nesting))
        (⟨.openParen, opening⟩ :: (tokens ++ [⟨.closeParen, closing⟩] ++ rest)) = _
      rw [readPrimary, List.append_assoc]
      exact bind_eq_ok.mpr ⟨_, inner, read_closing_eq_ok.mpr ⟨rfl, closing, rfl⟩⟩
  | @leaf nesting tokens expr leaf =>
      intro rest _
      change readPrimary scope _ (tokens ++ rest) = _
      rw [read_primary_leaf leaf]
      exact read_leaf_eq_ok.mpr ⟨tokens, rfl, leaf, resolved⟩

end Completeness

end TagPolicy.Language
