import TagPolicy.Proofs.Language.Expressions

/-!
A document is read from tokens exactly if the grammar derives it from them, its names are defined
once and before they are used, and its expressions are not too deep. Statements follow each other
with nothing between them; where one ends, the keyword of the next goes on with no chain.
-/

namespace TagPolicy.Language

open Grammar
open Outcome (bind_eq_ok ok_bind pure_eq_ok)
open Text (Position sameWord)

section Statements

variable {scope : Scope} {start : Position} {effect : Effect} {tokens front rest : List Token}
  {statement : Statement}

/-- The tokens write the statement, and the bounds of the language allow it. -/
structure Scope.States (scope : Scope) (front : List Token) (statement : Statement) : Prop where
  derived : IsStatement maxDepth front statement
  fresh : ∀ name ∈ statement.defined?, name ∉ scope.defined
  resolved : statement.expr.Resolved scope.defined
  shallow : statement.expr.depth ≤ maxDepth

theorem takes_definition {word : Token} (spelled : IsKeyword "define" word)
    (read : readDefinition scope word.position tokens = .ok (statement, rest)) :
    ∃ front, word :: tokens = front ++ rest ∧ scope.States front statement := by
  unfold readDefinition at read
  split at read
  · rename_i name position after
    split at read
    · cases read
    · rename_i fresh
      split at read
      · obtain ⟨as, others, rfl, spelledAs⟩ := is_keyword_of_next ‹_›
        obtain ⟨⟨body, afterBody⟩, readBody, finished⟩ := bind_eq_ok.mp read
        cases pure_eq_ok.mp finished
        obtain ⟨front, split, writes⟩ := takes_read_expr maxDepth readBody
        rw [List.tail_cons] at split
        refine ⟨word :: ⟨.bracketed name, position⟩ :: as :: front, by rw [split]; rfl,
          .define spelled spelledAs writes.derived, ?_, writes.resolved, writes.shallow⟩
        intro other same
        cases same
        exact fresh
      · cases read
  · cases read

theorem takes_rule (effect : Effect) {word : Token} (spelled : IsKeyword (effectWord effect) word)
    (read : readRule scope word.position effect tokens = .ok (statement, rest)) :
    ∃ front, word :: tokens = front ++ rest ∧ scope.States front statement := by
  simp only [readRule] at read
  obtain ⟨⟨condition, after⟩, readCondition, finished⟩ := bind_eq_ok.mp read
  cases pure_eq_ok.mp finished
  obtain ⟨front, split, writes⟩ := takes_read_expr maxDepth readCondition
  have fresh : ∀ name ∈ (Statement.rule effect condition word.position.line).defined?,
      name ∉ scope.defined := by
    intro name impossible
    cases impossible
  split at split
  · obtain ⟨«if», others, rfl, spelledIf⟩ := is_keyword_of_next ‹_›
    rw [List.tail_cons] at split
    exact ⟨word :: «if» :: front, by rw [split]; rfl, .ruleIf spelled spelledIf writes.derived,
      fresh, writes.resolved, writes.shallow⟩
  · exact ⟨word :: front, by rw [split]; rfl, .rule spelled writes.derived, fresh,
      writes.resolved, writes.shallow⟩

theorem takes_statement (read : readStatement scope tokens = .ok (statement, rest)) :
    ∃ front, tokens = front ++ rest ∧ scope.States front statement := by
  simp only [readStatement] at read
  split at read
  · obtain ⟨word, others, rfl, spelled⟩ := is_keyword_of_next ‹_›
    exact takes_definition spelled read
  · split at read
    · obtain ⟨word, others, rfl, spelled⟩ := is_keyword_of_next ‹_›
      exact takes_rule .allow spelled read
    · split at read
      · obtain ⟨word, others, rfl, spelled⟩ := is_keyword_of_next ‹_›
        exact takes_rule .deny spelled read
      · cases read

theorem read_expr_of_derives {expr : Expr} (derived : Derives .disjunction maxDepth front expr)
    (resolved : expr.Resolved scope.defined) (shallow : expr.depth ≤ maxDepth)
    (ended : Category.disjunction.Ends rest) :
    readExpr scope maxDepth (front ++ rest) = .ok (expr, rest) :=
  accepts_of_derives derived resolved shallow rest ended

theorem read_rule_of_derives {condition : Expr}
    (derived : Derives .disjunction maxDepth front condition)
    (resolved : condition.Resolved scope.defined) (shallow : condition.depth ≤ maxDepth)
    (ended : Category.disjunction.Ends rest) :
    readRule scope start effect (front ++ rest) = .ok (.rule effect condition start.line, rest) := by
  have noIf : nextIs "if" (front ++ rest) = false := derived.starts (by decide) rest
  simp only [readRule, noIf, Bool.false_eq_true, if_false]
  exact bind_eq_ok.mpr ⟨_, read_expr_of_derives derived resolved shallow ended, rfl⟩

theorem read_rule_of_derives_if {condition : Expr} {word : Token} (spelled : IsKeyword "if" word)
    (derived : Derives .disjunction maxDepth front condition)
    (resolved : condition.Resolved scope.defined) (shallow : condition.depth ≤ maxDepth)
    (ended : Category.disjunction.Ends rest) :
    readRule scope start effect (word :: front ++ rest) =
      .ok (.rule effect condition start.line, rest) := by
  have next : nextIs "if" (word :: front ++ rest) = true := spelled.next_self _
  simp only [readRule, next, if_true]
  exact bind_eq_ok.mpr ⟨_, read_expr_of_derives derived resolved shallow ended, rfl⟩

theorem read_statement_effect {word : Token} (spelled : IsKeyword (effectWord effect) word) :
    readStatement scope (word :: tokens) = readRule scope word.position effect tokens := by
  have next := fun other => spelled.next other tokens
  cases effect with
  | allow =>
      have others : sameWord "allow" "define" = false ∧ sameWord "allow" "allow" = true := by decide
      simp only [readStatement, next, effectWord, others, Bool.false_eq_true, if_false, if_true]
      rfl
  | deny =>
      have others : sameWord "deny" "define" = false ∧ sameWord "deny" "allow" = false ∧
        sameWord "deny" "deny" = true := by decide
      simp only [readStatement, next, effectWord, others, Bool.false_eq_true, if_false, if_true]
      rfl

theorem read_statement_of_states (states : scope.States front statement)
    (ended : Category.disjunction.Ends rest) :
    readStatement scope (front ++ rest) = .ok (statement, rest) := by
  obtain ⟨derived, fresh, resolved, shallow⟩ := states
  cases derived with
  | @define word as name position tokens body spelled spelledAs derived =>
      have next : nextIs "define" (word :: ⟨.bracketed name, position⟩ :: as :: tokens ++ rest) =
        true := spelled.next_self _
      have nextAs : nextIs "as" (as :: tokens ++ rest) = true := spelledAs.next_self _
      rw [readStatement, if_pos next]
      change readDefinition scope word.position
        (⟨.bracketed name, position⟩ :: (as :: tokens ++ rest)) = _
      rw [readDefinition, if_neg (fresh name rfl), if_pos nextAs]
      exact bind_eq_ok.mpr ⟨_, read_expr_of_derives derived resolved shallow ended, rfl⟩
  | rule spelled derived =>
      rw [List.cons_append, read_statement_effect spelled]
      exact read_rule_of_derives derived resolved shallow ended
  | ruleIf spelled spelledIf derived =>
      rw [List.cons_append, read_statement_effect spelled]
      exact read_rule_of_derives_if spelledIf derived resolved shallow ended

/-- A statement starts with a keyword, with which no expression goes on. -/
theorem Grammar.IsStatement.starts {nesting : Nat} (derived : IsStatement nesting front statement) :
    ∃ word tail, front = word :: tail ∧
      ∀ later, Category.disjunction.Ends (word :: tail ++ later) := by
  cases derived with
  | define spelled => exact ⟨_, _, rfl, fun _ => ⟨spelled.next "or" _, spelled.next "and" _⟩⟩
  | @rule word effect _ _ spelled =>
      refine ⟨_, _, rfl, fun _ => ?_⟩
      cases effect <;> exact ⟨spelled.next "or" _, spelled.next "and" _⟩
  | @ruleIf word _ effect _ _ spelled =>
      refine ⟨_, _, rfl, fun _ => ?_⟩
      cases effect <;> exact ⟨spelled.next "or" _, spelled.next "and" _⟩

end Statements

section Scoping

variable {defined : List String} {statement : Statement} {statements : List Statement}

/-- Names are defined once and before they are used, where some of them are defined already. -/
def InScope : List String → List Statement → Prop
  | _, [] => True
  | defined, statement :: later =>
      (∀ name ∈ statement.defined?, name ∉ defined) ∧ statement.expr.Resolved defined ∧
        InScope (statement.defined?.toList ++ defined) later

/-- Only the expressions and the names of statements matter, not their lines. -/
theorem in_scope_congr {others : List Statement}
    (exprs : statements.map Statement.expr = others.map Statement.expr)
    (names : statements.map Statement.defined? = others.map Statement.defined?) :
    InScope defined statements ↔ InScope defined others := by
  induction statements generalizing others defined with
  | nil =>
      cases others with
      | nil => exact Iff.rfl
      | cons other others => cases exprs
  | cons statement statements induction =>
      cases others with
      | nil => cases exprs
      | cons other others =>
          obtain ⟨sameExpr, exprs⟩ := List.cons.inj exprs
          obtain ⟨sameName, names⟩ := List.cons.inj names
          rw [InScope, InScope, sameExpr, sameName, induction exprs names]

theorem Document.defined_by_cons :
    definedBy (statement :: statements) = statement.defined?.toList ++ definedBy statements := by
  rw [definedBy, List.filterMap_cons]
  cases statement.defined? <;> rfl

theorem fresh_cons :
    ((Document.definedBy (statement :: statements)).Nodup ∧
        ∀ name ∈ Document.definedBy (statement :: statements), name ∉ defined) ↔
      (∀ name ∈ statement.defined?, name ∉ defined) ∧ (Document.definedBy statements).Nodup ∧
        ∀ name ∈ Document.definedBy statements, name ∉ statement.defined?.toList ++ defined := by
  rw [Document.defined_by_cons]
  cases statement.defined? with
  | none => simp
  | some name =>
      simp only [Option.toList_some, List.cons_append, List.nil_append, List.nodup_cons,
        forall_eq_or_imp, Option.mem_some_iff, forall_eq', List.mem_cons, not_or]
      constructor
      · rintro ⟨⟨other, once⟩, first, later⟩
        exact ⟨first, once, fun one inside => ⟨fun same => other (same ▸ inside), later one inside⟩⟩
      · rintro ⟨first, once, both⟩
        exact ⟨⟨fun inside => (both name inside).1 rfl, once⟩, first,
          fun one inside => (both one inside).2⟩

/-- Every reference is to a name defined by an earlier statement, or already before. -/
def KnownBefore (defined : List String) (statements : List Statement) : Prop :=
  ∀ (position : Nat) (statement : Statement), statements[position]? = some statement →
    ∀ name ∈ statement.expr.references,
      name ∈ Document.definedBy (statements.take position) ++ defined

theorem known_before_cons :
    KnownBefore defined (statement :: statements) ↔
      statement.expr.Resolved defined ∧
        KnownBefore (statement.defined?.toList ++ defined) statements := by
  have order : ∀ (names : List String) (name : String),
      name ∈ (statement.defined?.toList ++ names) ++ defined ↔
        name ∈ names ++ (statement.defined?.toList ++ defined) := by
    intro names name
    simp only [List.mem_append]
    tauto
  constructor
  · intro known
    refine ⟨fun name inside => known 0 statement rfl name inside, ?_⟩
    intro position later place name inside
    have before := known (position + 1) later place name inside
    rw [List.take_succ_cons, Document.defined_by_cons] at before
    exact (order _ name).mp before
  · rintro ⟨resolved, known⟩ position later place name inside
    cases position with
    | zero =>
        cases place
        exact resolved name inside
    | succ position =>
        rw [List.take_succ_cons, Document.defined_by_cons]
        exact (order _ name).mpr (known position later place name inside)

theorem in_scope_iff :
    InScope defined statements ↔
      ((Document.definedBy statements).Nodup ∧
        ∀ name ∈ Document.definedBy statements, name ∉ defined) ∧
          KnownBefore defined statements := by
  induction statements generalizing defined with
  | nil => simp [InScope, Document.definedBy, KnownBefore]
  | cons statement statements induction =>
      rw [InScope, induction, fresh_cons, known_before_cons]
      tauto

theorem in_scope_iff_scoped {document : Document} :
    InScope [] document.statements ↔ document.Scoped := by
  have nothing : KnownBefore [] document.statements ↔
      ∀ (position : Nat) (statement : Statement),
        document.statements[position]? = some statement → ∀ name ∈ statement.expr.references,
          name ∈ Document.definedBy (document.statements.take position) := by
    simp only [KnownBefore, List.append_nil]
  rw [in_scope_iff, nothing]
  constructor
  · rintro ⟨⟨once, -⟩, earlier⟩
    exact ⟨once, earlier⟩
  · rintro ⟨once, earlier⟩
    exact ⟨⟨once, fun name _ => List.not_mem_nil⟩, earlier⟩

end Scoping

section Documents

variable {finish : Position} {limit : Nat} {defined : List String} {tokens rest : List Token}
  {statements : List Statement}

theorem read_statements_cons {token : Token} :
    readStatements finish (limit + 1) defined (token :: tokens) = (do
      let (statement, rest) ← readStatement ⟨defined, finish⟩ (token :: tokens)
      let later ← readStatements finish limit (statement.defined?.toList ++ defined) rest
      pure (statement :: later)) := rfl

theorem takes_statements (room : tokens.length ≤ limit)
    (read : readStatements finish limit defined tokens = .ok statements) :
    IsDocument maxDepth tokens statements ∧ InScope defined statements ∧
      ∀ statement ∈ statements, statement.expr.depth ≤ maxDepth := by
  induction limit generalizing defined tokens statements with
  | zero =>
      cases List.eq_nil_of_length_eq_zero (Nat.le_zero.mp room)
      cases read
      exact ⟨.nil, trivial, by simp⟩
  | succ limit induction =>
      cases tokens with
      | nil =>
          cases read
          exact ⟨.nil, trivial, by simp⟩
      | cons token tokens =>
          rw [read_statements_cons] at read
          obtain ⟨⟨statement, rest⟩, readFirst, continues⟩ := bind_eq_ok.mp read
          obtain ⟨later, readLater, finished⟩ := bind_eq_ok.mp continues
          cases pure_eq_ok.mp finished
          obtain ⟨front, split, states⟩ := takes_statement readFirst
          obtain ⟨word, tail, rfl, -⟩ := states.derived.starts
          have fewer : rest.length ≤ limit := by
            have length := congrArg List.length split
            simp only [List.length_cons, List.length_append] at length room
            omega
          obtain ⟨document, inScope, shallow⟩ := induction fewer readLater
          rw [split]
          exact ⟨.cons states.derived document, ⟨states.fresh, states.resolved, inScope⟩,
            List.forall_mem_cons.mpr ⟨states.shallow, shallow⟩⟩

theorem Grammar.IsDocument.ends_before {nesting : Nat}
    (document : IsDocument nesting tokens statements) (ended : Category.disjunction.Ends rest) :
    Category.disjunction.Ends (tokens ++ rest) := by
  cases document with
  | nil => exact ended
  | cons first _ =>
      obtain ⟨word, tail, rfl, ends⟩ := first.starts
      rw [List.append_assoc]
      exact ends _

theorem Grammar.IsDocument.ends {nesting : Nat} (document : IsDocument nesting tokens statements) :
    Category.disjunction.Ends tokens := by
  rw [← List.append_nil tokens]
  exact document.ends_before ⟨rfl, rfl⟩

def namesAfter : List String → List Statement → List String
  | defined, [] => defined
  | defined, statement :: later => namesAfter (statement.defined?.toList ++ defined) later

theorem mem_names_after {name : String} :
    name ∈ namesAfter defined statements ↔
      name ∈ Document.definedBy statements ∨ name ∈ defined := by
  induction statements generalizing defined with
  | nil => simp [namesAfter, Document.definedBy]
  | cons statement statements induction =>
      rw [namesAfter, induction, Document.defined_by_cons, List.mem_append, List.mem_append,
        or_assoc, or_left_comm]

/-- The statements of a document are read one after the other, whatever comes behind them. -/
theorem read_statements_front (finish : Position)
    (document : IsDocument maxDepth tokens statements) (inScope : InScope defined statements)
    (shallow : ∀ statement ∈ statements, statement.expr.depth ≤ maxDepth)
    (ended : Category.disjunction.Ends rest) (room : (tokens ++ rest).length ≤ limit) :
    ∃ left, rest.length ≤ left ∧
      readStatements finish limit defined (tokens ++ rest) = (do
        let later ← readStatements finish left (namesAfter defined statements) rest
        pure (statements ++ later)) := by
  induction document generalizing defined limit with
  | nil =>
      refine ⟨limit, room, ?_⟩
      rw [List.nil_append, namesAfter]
      cases readStatements finish limit defined rest <;> rfl
  | @cons front tokens statement statements first later induction =>
      obtain ⟨fresh, resolved, inScope⟩ := inScope
      obtain ⟨shallowFirst, shallow⟩ := List.forall_mem_cons.mp shallow
      have states : Scope.States ⟨defined, finish⟩ front statement :=
        ⟨first, fresh, resolved, shallowFirst⟩
      have readFirst := read_statement_of_states states (later.ends_before ended)
      obtain ⟨word, tail, rfl, -⟩ := first.starts
      rw [List.append_assoc, List.cons_append] at room ⊢
      cases limit with
      | zero => cases room
      | succ limit =>
          have fewer : (tokens ++ rest).length ≤ limit := by
            simp only [List.length_cons, List.length_append] at room ⊢
            omega
          obtain ⟨left, enough, reads⟩ := induction inScope shallow fewer
          refine ⟨left, enough, ?_⟩
          rw [read_statements_cons, ← List.cons_append, readFirst, ok_bind]
          dsimp only
          rw [reads, namesAfter]
          cases readStatements finish left (namesAfter (statement.defined?.toList ++ defined)
            statements) rest <;> rfl

theorem read_statements_of_document (document : IsDocument maxDepth tokens statements)
    (inScope : InScope defined statements)
    (shallow : ∀ statement ∈ statements, statement.expr.depth ≤ maxDepth)
    (room : tokens.length ≤ limit) :
    readStatements finish limit defined tokens = .ok statements := by
  have ended : Category.disjunction.Ends ([] : List Token) := ⟨rfl, rfl⟩
  rw [← List.append_nil tokens] at room ⊢
  obtain ⟨left, -, reads⟩ := read_statements_front finish document inScope shallow ended room
  have nothing : ∀ names, readStatements finish left names [] = .ok [] := by
    intro names
    cases left <;> rfl
  rw [reads, nothing, ok_bind, List.append_nil]
  rfl

/-- The documents that can be read are those that the grammar derives within the bounds. -/
theorem Document.of_tokens_eq_ok {document : Document} :
    Document.ofTokens finish tokens = .ok document ↔
      IsDocument maxDepth tokens document.statements ∧ document.Scoped ∧ document.Shallow := by
  rw [ofTokens, ← in_scope_iff_scoped]
  constructor
  · intro read
    obtain ⟨statements, readAll, finished⟩ := bind_eq_ok.mp read
    cases pure_eq_ok.mp finished
    exact takes_statements (Nat.le_refl _) readAll
  · rintro ⟨derived, inScope, shallow⟩
    have readAll : readStatements finish tokens.length [] tokens = .ok document.statements :=
      read_statements_of_document derived inScope shallow (Nat.le_refl _)
    exact bind_eq_ok.mpr ⟨_, readAll, rfl⟩

/-- What is known of the document of a text. -/
theorem Document.of_parse {text : String} {document : Document} (parsed : parse text = .ok document) :
    ∃ tokens, tokenize text = .ok tokens ∧ IsDocument maxDepth tokens document.statements ∧
      InScope [] document.statements ∧ document.Shallow := by
  obtain ⟨tokens, scanned, parsed⟩ := bind_eq_ok.mp parsed
  obtain ⟨statements, read, finished⟩ := bind_eq_ok.mp parsed
  cases pure_eq_ok.mp finished
  exact ⟨tokens, scanned, takes_statements (Nat.le_refl _) read⟩

end Documents

end TagPolicy.Language
