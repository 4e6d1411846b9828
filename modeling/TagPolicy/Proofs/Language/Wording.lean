import TagPolicy.Proofs.Language.Acceptance

/-!
The names and strings of a text. A bare word is one of them only as the argument of a call; whether it
is one shows in the two lexemes before it. Whatever the grammar derives from tokens holds the names
and strings of the tokens, letter by letter and in their order, and nothing else of their wording.
-/

namespace TagPolicy

def Value.texts : Value → List String
  | text content => [content]
  | _ => []

namespace Language

open Grammar
open Text (Position sameWord same_word_congr not_writes_int_of_same_word)

/-- Whether a word spells a function whose call has a name as its argument. -/
def namesFunction (word : String) : Bool := sameWord word "tag" || sameWord word "attr"

theorem names_function_congr {word keyword : String} (same : sameWord word keyword = true) :
    namesFunction word = namesFunction keyword := by
  rw [namesFunction, namesFunction, same_word_congr same, same_word_congr same]

theorem names_function_effect_word (effect : Effect) : namesFunction (effectWord effect) = false := by
  cases effect <;> decide

/-- What stands before a lexeme, as far as it makes a word there the argument of a call. -/
inductive Lead
  | other
  /-- A word that spells a function. -/
  | function
  /-- An opening parenthesis behind such a word. -/
  | call
deriving DecidableEq, Repr

namespace Lead

def next (lead : Lead) : Lexeme → Lead
  | .word text => if namesFunction text then .function else .other
  | .openParen => if lead = .function then .call else .other
  | _ => .other

def after (lead : Lead) (lexemes : List Lexeme) : Lead := lexemes.foldl next lead

def held (lead : Lead) : Lexeme → List String
  | .word text => if lead = .call then [text] else []
  | .quoted text => [text]
  | .braced name => [name]
  | .bracketed name => [name]
  | _ => []

def texts : Lead → List Lexeme → List String
  | _, [] => []
  | lead, lexeme :: rest => lead.held lexeme ++ (lead.next lexeme).texts rest

variable {lead : Lead} {lexemes later : List Lexeme}

theorem after_append (lead : Lead) (lexemes later : List Lexeme) :
    lead.after (lexemes ++ later) = (lead.after lexemes).after later := List.foldl_append

theorem texts_append (lead : Lead) (lexemes later : List Lexeme) :
    lead.texts (lexemes ++ later) = lead.texts lexemes ++ (lead.after lexemes).texts later := by
  induction lexemes generalizing lead with
  | nil => rfl
  | cons lexeme lexemes induction =>
      rw [List.cons_append, texts, texts, induction, List.append_assoc]
      rfl

theorem next_eq_function {lexeme : Lexeme} :
    lead.next lexeme = .function ↔ ∃ word, lexeme = .word word ∧ namesFunction word = true := by
  cases lexeme <;> simp [next, ite_eq_iff]

theorem next_eq_call {lexeme : Lexeme} :
    lead.next lexeme = .call ↔ lexeme = .openParen ∧ lead = .function := by
  cases lexeme <;> simp [next, ite_eq_iff]

theorem after_eq_function :
    other.after lexemes = .function ↔
      ∃ front word, lexemes = front ++ [.word word] ∧ namesFunction word = true := by
  rcases List.eq_nil_or_concat lexemes with rfl | ⟨front, last, rfl⟩
  · simp [after]
  · rw [List.concat_eq_append, after_append, after, List.foldl_cons, List.foldl_nil,
      next_eq_function]
    simp

/-- The next word is an argument exactly if it stands directly behind an opening parenthesis that
stands directly behind the name of a function. -/
theorem after_eq_call :
    other.after lexemes = .call ↔
      ∃ front word, lexemes = front ++ [.word word, .openParen] ∧ namesFunction word = true := by
  rcases List.eq_nil_or_concat lexemes with rfl | ⟨front, last, rfl⟩
  · simp [after]
  · rw [List.concat_eq_append, after_append, after, List.foldl_cons, List.foldl_nil, next_eq_call,
      after_eq_function]
    constructor
    · rintro ⟨rfl, earlier, word, rfl, function⟩
      exact ⟨earlier, word, by simp, function⟩
    · rintro ⟨earlier, word, same, function⟩
      have split : front ++ [last] = (earlier ++ [.word word]) ++ [.openParen] := by simpa using same
      obtain ⟨rfl, ends⟩ := List.append_inj' split rfl
      cases ends
      exact ⟨rfl, earlier, word, rfl, function⟩

end Lead

def Expr.texts : Expr → List String
  | and left right => left.texts ++ right.texts
  | or left right => left.texts ++ right.texts
  | not operand => operand.texts
  | tag name => [name]
  | attr name _ value => name :: value.texts
  | literal _ => []
  | reference name => [name]

def Statement.texts : Statement → List String
  | define name body _ => name :: body.texts
  | rule _ condition _ => condition.texts

def Document.texts (document : Document) : List String :=
  document.statements.flatMap Statement.texts

/-- The names and strings of tokens are some texts, and the tokens end with nothing that would make
the next word an argument. -/
structure Tells (tokens : List Token) (texts : List String) : Prop where
  texts_eq : Lead.other.texts (tokens.map Token.lexeme) = texts
  ended : Lead.other.after (tokens.map Token.lexeme) = .other

section Derived

variable {tokens front back : List Token} {token function named operator operand : Token}
  {before after : List String} {keyword name : String} {value : Value}
  {comparison : Comparison} {opening closing : Position} {nesting : Nat} {category : Category}
  {expr : Expr} {statement : Statement} {statements : List Statement}

theorem tells_nil : Tells [] [] := ⟨rfl, rfl⟩

theorem Tells.append (first : Tells front before) (later : Tells back after) :
    Tells (front ++ back) (before ++ after) := by
  constructor
  · rw [List.map_append, Lead.texts_append, first.texts_eq, first.ended, later.texts_eq]
  · rw [List.map_append, Lead.after_append, first.ended, later.ended]

theorem Grammar.IsKeyword.tells (spelled : IsKeyword keyword token)
    (plain : namesFunction keyword = false) : Tells [token] [] := by
  cases spelled with
  | word same =>
      have other := (names_function_congr same).trans plain
      constructor <;> simp [Lead.texts, Lead.held, Lead.after, Lead.next, other]

theorem tells_call (spelled : IsKeyword keyword function)
    (calls : namesFunction keyword = true) (isName : IsName name named) :
    Tells [function, ⟨.openParen, opening⟩, named, ⟨.closeParen, closing⟩] [name] := by
  cases spelled with
  | word same =>
      have function := (names_function_congr same).trans calls
      cases isName <;> constructor <;>
        simp [Lead.texts, Lead.held, Lead.after, Lead.next, function]

theorem Grammar.IsComparison.tells (compared : IsComparison comparison operator) :
    Tells [operator] [] := by
  cases compared <;> exact ⟨rfl, rfl⟩

/-- No integer is spelled like a function. -/
theorem Grammar.IsValue.tells (denoted : IsValue value operand) : Tells [operand] value.texts := by
  cases denoted with
  | text => exact ⟨rfl, rfl⟩
  | @integer word position number writes =>
      have other : ∀ function initial, (Text.lowerWord function).toList.head? = some initial →
          '9' < initial → sameWord word function = Bool.false := by
        intro function initial starts letter
        rw [Bool.eq_false_iff]
        exact fun same => not_writes_int_of_same_word same starts letter writes
      have plain : namesFunction word = Bool.false := by
        rw [namesFunction, other "tag" 't' (by decide) (by decide),
          other "attr" 'a' (by decide) (by decide)]
        rfl
      constructor <;> simp [Lead.texts, Lead.held, Lead.after, Lead.next, plain, Value.texts]
  | true spelled => exact spelled.tells (by decide)
  | false spelled => exact spelled.tells (by decide)

theorem Grammar.Leaf.tells (leaf : Leaf tokens expr) : Tells tokens expr.texts := by
  cases leaf with
  | true spelled => exact spelled.tells (by decide)
  | false spelled => exact spelled.tells (by decide)
  | call spelled isName => exact tells_call spelled (by decide) isName
  | braced => exact ⟨rfl, rfl⟩
  | attr spelled isName compared denoted =>
      exact (tells_call spelled (by decide) isName).append (compared.tells.append denoted.tells)
  | reference => exact ⟨rfl, rfl⟩

theorem Joins.texts {join : Expr → Expr → Expr} (joins : Joins join) (left right : Expr) :
    (join left right).texts = left.texts ++ right.texts := by
  cases joins <;> rfl

theorem Joins.texts_chain {join : Expr → Expr → Expr} {operands : List Expr} (joins : Joins join)
    (folded : Folded join operands expr) : expr.texts = operands.flatMap Expr.texts := by
  induction folded with
  | single => simp
  | halves several _ _ left right =>
      rw [joins.texts, left, right, ← List.flatMap_append, List.take_append_drop]

theorem Grammar.Repeated.tells {operands : List Operand}
    (repeated : Repeated keyword (operands.map Prod.fst) tokens)
    (plain : namesFunction keyword = false)
    (each : ∀ operand ∈ operands, Tells operand.1 operand.2.texts) :
    Tells tokens ((operands.map Prod.snd).flatMap Expr.texts) := by
  induction operands generalizing tokens with
  | nil =>
      cases repeated
      exact tells_nil
  | cons first operands induction =>
      obtain ⟨tells, others⟩ := List.forall_mem_cons.mp each
      rw [List.map_cons] at repeated
      cases repeated with
      | cons spelled repeated =>
          exact ((spelled.tells plain).append tells).append (induction repeated others)

/-- The tokens of a chain tell the texts of its tree, if those of its operands do. -/
theorem Joins.tells {join : Expr → Expr → Expr} {first : Operand} {others : List Operand}
    (joins : Joins join) (plain : namesFunction keyword = false)
    (each : ∀ operand ∈ first :: others, Tells operand.1 operand.2.texts)
    (repeated : Repeated keyword (others.map Prod.fst) tokens)
    (folded : Folded join ((first :: others).map Prod.snd) expr) :
    Tells (first.1 ++ tokens) expr.texts := by
  obtain ⟨tells, others⟩ := List.forall_mem_cons.mp each
  rw [joins.texts_chain folded]
  exact tells.append (repeated.tells plain others)

theorem Grammar.Derives.tells (derived : Derives category nesting tokens expr) :
    Tells tokens expr.texts := by
  induction derived with
  | or _ repeated folded operands => exact Joins.or.tells (by decide) operands repeated folded
  | and _ repeated folded operands => exact Joins.and.tells (by decide) operands repeated folded
  | not spelled _ induction => exact (spelled.tells (by decide)).append induction
  | primary _ induction => exact induction
  | @parens nesting tokens expr opening closing _ induction =>
      have opens : Tells [⟨.openParen, opening⟩] [] := ⟨rfl, rfl⟩
      have closes : Tells [⟨.closeParen, closing⟩] [] := ⟨rfl, rfl⟩
      have whole := (opens.append induction).append closes
      rwa [List.append_nil] at whole
  | leaf leaf => exact leaf.tells

theorem Grammar.IsStatement.tells (derived : IsStatement nesting tokens statement) :
    Tells tokens statement.texts := by
  cases derived with
  | @define word as name position tokens body spelled spelledAs derived =>
      have naming : Tells [⟨.bracketed name, position⟩] [name] := ⟨rfl, rfl⟩
      exact (spelled.tells (by decide)).append
        (naming.append ((spelledAs.tells (by decide)).append derived.tells))
  | rule spelled derived =>
      exact (spelled.tells (names_function_effect_word _)).append derived.tells
  | ruleIf spelled spelledIf derived =>
      exact (spelled.tells (names_function_effect_word _)).append
        ((spelledIf.tells (by decide)).append derived.tells)

theorem Grammar.IsDocument.tells (document : IsDocument nesting tokens statements) :
    Tells tokens (statements.flatMap Statement.texts) := by
  induction document with
  | nil => exact tells_nil
  | cons first _ induction => exact first.tells.append induction

/-- A document holds the names and strings of its text, in their order. -/
theorem Document.texts_of_parse {text : String} {document : Document}
    (parsed : parse text = .ok document) (scanned : tokenize text = .ok tokens) :
    Lead.other.texts (tokens.map Token.lexeme) = document.texts := by
  obtain ⟨others, rescanned, derived, -⟩ := of_parse parsed
  rw [scanned] at rescanned
  cases rescanned
  exact derived.tells.texts_eq

end Derived

end Language

end TagPolicy
