import TagPolicy.Proofs.Language.Acceptance
import TagPolicy.Proofs.Language.Printing
import TagPolicy.Proofs.Text.Places

/-!
Documents written out and read again. A connective is written as a chain of two operands between
parentheses, so an expression opens fewer parentheses than it is deep. The document that is read is
the one that was written, but for the lines: these are counted in the text, through comments and
strings of several lines.
-/

namespace TagPolicy

open TagPolicy.Language (Lexeme)

def Comparison.lexeme : Comparison → Lexeme
  | equal => .equal
  | unequal => .unequal

def Value.lexeme : Value → Lexeme
  | text content => .quoted content
  | integer number => .word (toString number.toInt)
  | boolean true => .word "true"
  | boolean false => .word "false"

def Effect.lexeme (effect : Effect) : Lexeme := .word effect.render

namespace Language

open Grammar
open Outcome (bind_eq_ok)
open Text (Position)

def Expr.lexemes : Expr → List Lexeme
  | and left right =>
      .openParen :: (left.lexemes ++ .word "AND" :: (right.lexemes ++ [.closeParen]))
  | or left right =>
      .openParen :: (left.lexemes ++ .word "OR" :: (right.lexemes ++ [.closeParen]))
  | not operand => .word "NOT" :: operand.lexemes
  | tag name => [.word "tag", .openParen, .quoted name, .closeParen]
  | attr name comparison value =>
      [.word "attr", .openParen, .quoted name, .closeParen, comparison.lexeme, value.lexeme]
  | literal true => [.word "TRUE"]
  | literal false => [.word "FALSE"]
  | reference name => [.bracketed name]

def Statement.lexemes : Statement → List Lexeme
  | define name body _ => .word "DEFINE" :: .bracketed name :: .word "AS" :: body.lexemes
  | rule effect condition _ => effect.lexeme :: .word "IF" :: condition.lexemes

def Document.lexemes (document : Document) : List Lexeme :=
  document.statements.flatMap Statement.lexemes

/-- The text of a document, where the gap of an index stands behind that many of its lexemes. -/
def Document.written (gap : Nat → List Char) (document : Document) : String :=
  String.ofList (gap 0 ++ spell gap 1 document.lexemes)

def Statement.atLine (line : Nat) : Statement → Statement
  | define name body _ => .define name body line
  | rule effect condition _ => .rule effect condition line

/-- The line on which a statement of a document begins: one more than the line feeds in the text of
the statements before it. -/
def Document.lineOf (gap : Nat → List Char) (document : Document) (position : Nat) : Nat :=
  1 + ((Document.mk (document.statements.take position)).written gap).toList.count '\n'

def Document.relined (gap : Nat → List Char) (document : Document) : Document :=
  ⟨document.statements.mapIdx fun position statement =>
    statement.atLine (document.lineOf gap position)⟩

/-- Tags and attributes have names. -/
def Expr.Named : Expr → Prop
  | and left right => left.Named ∧ right.Named
  | or left right => left.Named ∧ right.Named
  | not operand => operand.Named
  | tag name => name ≠ ""
  | attr name _ _ => name ≠ ""
  | literal _ => True
  | reference _ => True

/-- What a document has to be so that its text is read as the same document. -/
structure Document.Printable (document : Document) : Prop where
  scope : document.Scoped
  shallow : document.Shallow
  named : ∀ statement ∈ document.statements, statement.expr.Named
  bracketed : ∀ name ∈ definedBy document.statements, Bracket.square.Holds name

section Writing

theorem writable_word {text : String}
    (spelled : text ≠ "" ∧ text.toList.all isWordChar = true) : (Lexeme.word text).Writable :=
  .word spelled.1 (List.all_eq_true.mp spelled.2)

theorem is_word_char_of_is_digit {char : Char} (digit : Text.IsDigit char) : isWordChar char = true := by
  have isDigit : char.isDigit = true := by
    simp only [Char.isDigit, Bool.and_eq_true, decide_eq_true_eq, ge_iff_le]
    exact digit
  simp [isWordChar, Char.isAlphanum, isDigit]

theorem writable_integer (value : Int) : (Lexeme.word (toString value)).Writable := by
  have digits : ∀ number, ∀ char ∈ Nat.toDigits 10 number, isWordChar char = true :=
    fun _ _ inside => is_word_char_of_is_digit (Text.is_digit_of_mem_toDigits inside)
  constructor
  · intro empty
    obtain ⟨first, rest, chars, -⟩ := (Text.writes_int_toString value).head
    rw [empty] at chars
    cases chars
  · rw [Text.toList_toString]
    split
    · exact digits _
    · exact List.forall_mem_cons.mpr ⟨by decide, digits _⟩

theorem writable_value (value : Value) : value.lexeme.Writable := by
  cases value with
  | text content => exact .quoted
  | integer number => exact writable_integer number.toInt
  | boolean flag => cases flag <;> exact writable_word (by decide)

theorem writable_comparison (comparison : Comparison) : comparison.lexeme.Writable := by
  cases comparison
  · exact .equal
  · exact .unequal

theorem writable_effect (effect : Effect) : effect.lexeme.Writable := by
  cases effect <;> exact writable_word (by decide)

theorem writable_expr {expr : Expr}
    (bracketed : ∀ name ∈ expr.references, Bracket.square.Holds name) :
    ∀ lexeme ∈ expr.lexemes, lexeme.Writable := by
  have word : ∀ text ∈ ["AND", "OR", "NOT", "tag", "attr", "TRUE", "FALSE"],
      (Lexeme.word text).Writable := by
    intro text inside
    apply writable_word
    revert text
    decide
  induction expr with
  | and left right first second =>
      obtain ⟨lefts, rights⟩ := List.forall_mem_append.mp bracketed
      simp only [Expr.lexemes, List.forall_mem_cons, List.forall_mem_append]
      exact ⟨.openParen, first lefts, word "AND" (by decide), second rights, .closeParen,
        List.forall_mem_nil _⟩
  | or left right first second =>
      obtain ⟨lefts, rights⟩ := List.forall_mem_append.mp bracketed
      simp only [Expr.lexemes, List.forall_mem_cons, List.forall_mem_append]
      exact ⟨.openParen, first lefts, word "OR" (by decide), second rights, .closeParen,
        List.forall_mem_nil _⟩
  | not operand inner =>
      rw [Expr.lexemes, List.forall_mem_cons]
      exact ⟨word "NOT" (by decide), inner bracketed⟩
  | tag name =>
      simp only [Expr.lexemes, List.forall_mem_cons]
      exact ⟨word "tag" (by decide), .openParen, .quoted, .closeParen, List.forall_mem_nil _⟩
  | attr name comparison value =>
      simp only [Expr.lexemes, List.forall_mem_cons]
      exact ⟨word "attr" (by decide), .openParen, .quoted, .closeParen,
        writable_comparison comparison, writable_value value, List.forall_mem_nil _⟩
  | literal value =>
      cases value
      · exact List.forall_mem_singleton.mpr (word "FALSE" (by decide))
      · exact List.forall_mem_singleton.mpr (word "TRUE" (by decide))
  | reference name =>
      exact List.forall_mem_singleton.mpr (.bracketed (bracketed name List.mem_cons_self))

theorem writable_statement {statement : Statement}
    (defined : ∀ name ∈ statement.defined?, Bracket.square.Holds name)
    (bracketed : ∀ name ∈ statement.expr.references, Bracket.square.Holds name) :
    ∀ lexeme ∈ statement.lexemes, lexeme.Writable := by
  cases statement with
  | define name body line =>
      simp only [Statement.lexemes, List.forall_mem_cons]
      exact ⟨writable_word (by decide), .bracketed (defined name rfl), writable_word (by decide),
        writable_expr bracketed⟩
  | rule effect condition line =>
      simp only [Statement.lexemes, List.forall_mem_cons]
      exact ⟨writable_effect effect, writable_word (by decide), writable_expr bracketed⟩

theorem writable_document {document : Document} (printable : document.Printable) :
    ∀ lexeme ∈ document.lexemes, lexeme.Writable := by
  intro lexeme inside
  obtain ⟨statement, member, inside⟩ := List.mem_flatMap.mp inside
  apply writable_statement _ _ lexeme inside
  · intro name defines
    exact printable.bracketed name (List.mem_filterMap.mpr ⟨statement, member, defines⟩)
  · intro name referred
    obtain ⟨position, here⟩ := List.mem_iff_getElem?.mp member
    have earlier := printable.scope.earlier position statement here name referred
    obtain ⟨definition, before, defines⟩ := List.mem_filterMap.mp earlier
    have whole := List.mem_of_mem_take before
    exact printable.bracketed name (List.mem_filterMap.mpr ⟨definition, whole, defines⟩)

end Writing

section Deriving

variable {gap : Nat → List Char} {index nesting : Nat} {position : Position} {expr : Expr}
  {left right : Expr} {tokens lefts rights : List Token} {word : Token}

theorem Grammar.Derives.conjunction (derived : Derives .unary nesting tokens expr) :
    Derives .conjunction nesting tokens expr := by
  have operands : ∀ operand ∈ [(tokens, expr)], Derives .unary nesting operand.1 operand.2 :=
    List.forall_mem_singleton.mpr derived
  have alone := Derives.and operands .nil .single
  rwa [List.append_nil] at alone

theorem Grammar.Derives.disjunction (derived : Derives .conjunction nesting tokens expr) :
    Derives .disjunction nesting tokens expr := by
  have operands : ∀ operand ∈ [(tokens, expr)], Derives .conjunction nesting operand.1 operand.2 :=
    List.forall_mem_singleton.mpr derived
  have alone := Derives.or operands .nil .single
  rwa [List.append_nil] at alone

theorem Grammar.Folded.pair (join : Expr → Expr → Expr) (left right : Expr) :
    Folded join [left, right] (join left right) := by
  have half : [left, right].length / 2 = 1 := by simp
  apply Folded.halves
  · simp
  · rw [half]
    exact .single
  · rw [half]
    exact .single

theorem Grammar.Repeated.single {keyword : String} (spelled : IsKeyword keyword word) :
    Repeated keyword [tokens] (word :: tokens) := by
  have repeated : Repeated keyword [tokens] (word :: tokens ++ []) := .cons spelled .nil
  rwa [List.append_nil] at repeated

theorem Grammar.Derives.pair_and (spelled : IsKeyword "and" word)
    (first : Derives .unary nesting lefts left) (second : Derives .unary nesting rights right) :
    Derives .disjunction nesting (lefts ++ word :: rights) (.and left right) := by
  have operands : ∀ operand ∈ [(lefts, left), (rights, right)],
      Derives .unary nesting operand.1 operand.2 := by
    simpa using And.intro first second
  exact (Derives.and operands (.single spelled) (.pair .and left right)).disjunction

theorem Grammar.Derives.pair_or (spelled : IsKeyword "or" word)
    (first : Derives .unary nesting lefts left) (second : Derives .unary nesting rights right) :
    Derives .disjunction nesting (lefts ++ word :: rights) (.or left right) := by
  have operands : ∀ operand ∈ [(lefts, left), (rights, right)],
      Derives .conjunction nesting operand.1 operand.2 := by
    simpa using And.intro first.conjunction second.conjunction
  exact .or operands (.single spelled) (.pair .or left right)

theorem Grammar.Derives.enclosed {opening closing : Position}
    (inner : Derives .disjunction nesting (lefts ++ word :: rights) expr) :
    Derives .unary (nesting + 1) (⟨.openParen, opening⟩ ::
      (lefts ++ word :: (rights ++ [⟨.closeParen, closing⟩]))) expr := by
  have whole : Derives .primary (nesting + 1) (⟨.openParen, opening⟩ :: (lefts ++ word :: rights) ++
      [⟨.closeParen, closing⟩]) expr := .parens inner
  rw [List.cons_append, List.append_assoc, List.cons_append] at whole
  exact .primary whole

theorem is_value_lexeme (value : Value) : IsValue value ⟨value.lexeme, position⟩ := by
  cases value with
  | text content => exact .text
  | integer number => exact .integer (Text.writes_int_toString number.toInt)
  | boolean flag =>
      cases flag
      · exact .false (.word (by decide))
      · exact .true (.word (by decide))

theorem is_comparison_lexeme (comparison : Comparison) :
    IsComparison comparison ⟨comparison.lexeme, position⟩ := by
  cases comparison
  · exact .equal
  · exact .unequal

theorem is_keyword_effect (effect : Effect) :
    IsKeyword (effectWord effect) ⟨effect.lexeme, position⟩ := by
  cases effect <;> exact .word (by decide)

/-- The tokens of an expression that is written out, with fewer open parentheses at any place than
the expression is deep. -/
theorem derives_placed (named : expr.Named) (shallow : expr.depth ≤ nesting + 1) :
    Derives .unary nesting (placed gap index position expr.lexemes) expr := by
  induction expr generalizing nesting index position with
  | and left right first second =>
      -- a connective is deeper than its operands, so there is a parenthesis left for it
      have deep := left.depth_pos
      rw [Expr.depth] at shallow
      cases nesting with
      | zero => omega
      | succ nesting =>
          simp only [Expr.lexemes, placed, placed_append]
          exact (Derives.pair_and (.word (by decide)) (first named.1 (by omega))
            (second named.2 (by omega))).enclosed
  | or left right first second =>
      have deep := left.depth_pos
      rw [Expr.depth] at shallow
      cases nesting with
      | zero => omega
      | succ nesting =>
          simp only [Expr.lexemes, placed, placed_append]
          exact (Derives.pair_or (.word (by decide)) (first named.1 (by omega))
            (second named.2 (by omega))).enclosed
  | not operand inner =>
      rw [Expr.depth] at shallow
      exact .not (.word (by decide)) (inner named (by omega))
  | tag name => exact .primary (.leaf (.call (.word (by decide)) (.quoted named)))
  | attr name comparison value =>
      exact .primary (.leaf (.attr (.word (by decide)) (.quoted named)
        (is_comparison_lexeme comparison) (is_value_lexeme value)))
  | literal value =>
      cases value
      · exact .primary (.leaf (.false (.word (by decide))))
      · exact .primary (.leaf (.true (.word (by decide))))
  | reference name => exact .primary (.leaf .reference)

theorem is_statement_placed {statement : Statement} (named : statement.expr.Named)
    (shallow : statement.expr.depth ≤ maxDepth) :
    IsStatement maxDepth (placed gap index position statement.lexemes)
      (statement.atLine position.line) := by
  have derives : ∀ index position, Derives .disjunction maxDepth
      (placed gap index position statement.expr.lexemes) statement.expr :=
    fun _ _ => (derives_placed named (by omega)).conjunction.disjunction
  cases statement with
  | define name body line => exact .define (.word (by decide)) (.word (by decide)) (derives _ _)
  | rule effect condition line =>
      exact .ruleIf (is_keyword_effect effect) (.word (by decide)) (derives _ _)

theorem is_document_placed {statements : List Statement}
    (named : ∀ statement ∈ statements, statement.expr.Named)
    (shallow : ∀ statement ∈ statements, statement.expr.depth ≤ maxDepth) :
    IsDocument maxDepth (placed gap index position (statements.flatMap Statement.lexemes))
      (statements.mapIdx fun count statement => statement.atLine
        (position.after (spell gap index
          ((statements.take count).flatMap Statement.lexemes))).line) := by
  induction statements generalizing index position with
  | nil => exact .nil
  | cons statement statements induction =>
      obtain ⟨namedFirst, named⟩ := List.forall_mem_cons.mp named
      obtain ⟨shallowFirst, shallow⟩ := List.forall_mem_cons.mp shallow
      rw [List.flatMap_cons, placed_append, List.mapIdx_cons]
      -- the text before a later statement begins with that of this one
      simp only [List.take_succ_cons, List.flatMap_cons, spell_append, Position.after_append]
      exact .cons (is_statement_placed namedFirst shallowFirst) (induction named shallow)

end Deriving

section Lines

variable {gap : Nat → List Char} {document : Document}

@[simp] theorem Statement.expr_at_line (line : Nat) (statement : Statement) :
    (statement.atLine line).expr = statement.expr := by
  cases statement <;> rfl

@[simp] theorem Statement.defined_at_line (line : Nat) (statement : Statement) :
    (statement.atLine line).defined? = statement.defined? := by
  cases statement <;> rfl

theorem in_scope_at_lines {line : Nat → Nat} {defined : List String} {statements : List Statement} :
    InScope defined (statements.mapIdx fun count statement => statement.atLine (line count)) ↔
      InScope defined statements := by
  apply in_scope_congr
  · exact List.ext_getElem (by simp) (by simp)
  · exact List.ext_getElem (by simp) (by simp)

theorem relined_eq : (document.relined gap).statements =
    document.statements.mapIdx fun count statement => statement.atLine
      ((Position.start.after (gap 0)).after (spell gap 1
        ((document.statements.take count).flatMap Statement.lexemes))).line := by
  simp only [Document.relined, Document.lineOf, Document.written, Document.lexemes,
    String.toList_ofList, ← Position.after_append, Position.line_after]
  rfl

/-- A document that is written out with any gaps between its lexemes is read as the same document,
with the lines of the text. -/
theorem Document.parse_written (document : Document) (gap : Nat → List Char)
    (printable : document.Printable) (gaps : ∀ index, IsGap (gap index))
    (parted : ∀ index, 0 < index → index < document.lexemes.length → gap index ≠ []) :
    parse (document.written gap) = .ok (document.relined gap) := by
  have scanned : tokenize (document.written gap) =
      .ok (placed gap 1 (Position.start.after (gap 0)) document.lexemes) := by
    rw [tokenize, written, String.toList_ofList]
    apply run_gap (gaps 0)
    apply run_spell gaps (writable_document printable)
    intro inner after before
    exact parted inner (by omega) (by omega)
  have derived : IsDocument maxDepth (placed gap 1 (Position.start.after (gap 0)) document.lexemes)
      (document.relined gap).statements := by
    rw [relined_eq]
    exact is_document_placed printable.named printable.shallow
  have inScope : InScope [] (document.relined gap).statements := by
    rw [relined_eq, in_scope_at_lines, in_scope_iff_scoped]
    exact printable.scope
  have shallow : ∀ statement ∈ (document.relined gap).statements,
      statement.expr.depth ≤ maxDepth := by
    intro statement inside
    obtain ⟨position, below, rfl⟩ := List.mem_mapIdx.mp inside
    rw [Statement.expr_at_line]
    exact printable.shallow _ (List.getElem_mem below)
  have read : Document.ofTokens (.finish (document.written gap))
      (placed gap 1 (Position.start.after (gap 0)) document.lexemes) = .ok (document.relined gap) :=
    bind_eq_ok.mpr ⟨_, read_statements_of_document derived inScope shallow (Nat.le_refl _), rfl⟩
  exact bind_eq_ok.mpr ⟨_, scanned, read⟩

def quotedDocument (first second third : Nat) : Document where
  statements := [
    .define "a#\"" (.attr "\n" .unequal (.integer Int64.minValue)) first,
    .rule .allow (.not (.or (.reference "a#\"") (.attr "b" .equal (.text "\"\\\n#\x7bé\x7d]"))))
      second,
    .rule .deny (.and (.tag "é(") (.literal true)) third]

def commentedGap (index : Nat) : List Char :=
  if index = 1 then '#' :: (" é \"".toList ++ ['\n', '\t']) else [' ']

theorem quoted_document_is_read_back :
    (quotedDocument 0 0 0).Printable ∧
      Document.parse ((quotedDocument 0 0 0).written commentedGap) = .ok (quotedDocument 1 3 4) := by
  have scope : (quotedDocument 0 0 0).Scoped := by
    apply in_scope_iff_scoped.mp
    simp [quotedDocument, InScope, Statement.defined?, Statement.expr, Expr.Resolved,
      Expr.references]
  have printable : (quotedDocument 0 0 0).Printable := by
    refine ⟨scope, ?_, ?_, ?_⟩
    · simp [quotedDocument, Document.Shallow, Statement.expr, Expr.depth, maxDepth]
    · simp [quotedDocument, Statement.expr, Expr.Named]
    · intro name defined
      cases List.mem_singleton.mp defined
      constructor <;> decide
  have gaps : ∀ index, IsGap (commentedGap index) := by
    intro index
    rw [commentedGap]
    split
    · exact .comment (by decide) (.blank (by decide) .nil)
    · exact .blank (by decide) .nil
  have parted : ∀ index, commentedGap index ≠ [] := by
    intro index
    rw [commentedGap]
    split <;> simp
  have lines : (quotedDocument 0 0 0).relined commentedGap = quotedDocument 1 3 4 := by
    decide +kernel
  have read := Document.parse_written (quotedDocument 0 0 0) commentedGap printable gaps
    fun index _ _ => parted index
  rw [lines] at read
  exact ⟨printable, read⟩

end Lines

end Language

end TagPolicy
