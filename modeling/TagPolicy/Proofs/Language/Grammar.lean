import TagPolicy.Language.Document
import TagPolicy.Language.SourceError
import TagPolicy.Proofs.Text.Numeral
import TagPolicy.Text.Letter

/-!
The grammar of the rule language, as a relation between tokens and what they write. It says nothing
of how tokens are read:

    document    = statement*
    statement   = "DEFINE" "[" name "]" "AS" disjunction
                | ("ALLOW" | "DENY") ["IF"] disjunction
    disjunction = conjunction ("OR" conjunction)*
    conjunction = unary ("AND" unary)*
    unary       = "NOT" unary | primary
    primary     = "(" disjunction ")" | leaf
    leaf        = "TRUE" | "FALSE" | "tag" "(" name ")" | "{" name "}" | "[" name "]"
                | "attr" "(" name ")" ("==" | "!=") value

What the grammar leaves open is said of the document: which names its references may use, and how
deep its expressions are.
-/

namespace TagPolicy.Language

open Text (Position WritesInt lowerWord sameWord)

namespace Grammar

/-- A word that spells a keyword, in any case of its ASCII letters. -/
inductive IsKeyword (keyword : String) : Token → Prop
  | word {text : String} {position : Position} :
      sameWord text keyword = true → IsKeyword keyword ⟨.word text, position⟩

inductive IsName (name : String) : Token → Prop
  | word {position : Position} : name ≠ "" → IsName name ⟨.word name, position⟩
  | quoted {position : Position} : name ≠ "" → IsName name ⟨.quoted name, position⟩

inductive IsComparison : Comparison → Token → Prop
  | equal {position : Position} : IsComparison .equal ⟨.equal, position⟩
  | unequal {position : Position} : IsComparison .unequal ⟨.unequal, position⟩

inductive IsValue : Value → Token → Prop
  | text {content : String} {position : Position} :
      IsValue (.text content) ⟨.quoted content, position⟩
  | integer {word : String} {position : Position} {number : Int64} :
      WritesInt word.toList number.toInt → IsValue (.integer number) ⟨.word word, position⟩
  | true {token : Token} : IsKeyword "true" token → IsValue (.boolean true) token
  | false {token : Token} : IsKeyword "false" token → IsValue (.boolean false) token

inductive Leaf : List Token → Expr → Prop
  | true {token : Token} : IsKeyword "true" token → Leaf [token] (.literal true)
  | false {token : Token} : IsKeyword "false" token → Leaf [token] (.literal false)
  | call {function named : Token} {name : String} {opening closing : Position} :
      IsKeyword "tag" function → IsName name named →
        Leaf [function, ⟨.openParen, opening⟩, named, ⟨.closeParen, closing⟩] (.tag name)
  | braced {name : String} {position : Position} : Leaf [⟨.braced name, position⟩] (.tag name)
  | attr {function named operator operand : Token} {name : String} {comparison : Comparison}
      {value : Value} {opening closing : Position} :
      IsKeyword "attr" function → IsName name named → IsComparison comparison operator →
        IsValue value operand →
          Leaf [function, ⟨.openParen, opening⟩, named, ⟨.closeParen, closing⟩, operator, operand]
            (.attr name comparison value)
  | reference {name : String} {position : Position} :
      Leaf [⟨.bracketed name, position⟩] (.reference name)

inductive Repeated (keyword : String) : List (List Token) → List Token → Prop
  | nil : Repeated keyword [] []
  | cons {word : Token} {part tokens : List Token} {parts : List (List Token)} :
      IsKeyword keyword word → Repeated keyword parts tokens →
        Repeated keyword (part :: parts) (word :: part ++ tokens)

/-- The tree of a chain: one operand stands for itself, and more are divided in the middle, where
the first part is the shorter one if their number is odd. -/
inductive Folded (join : Expr → Expr → Expr) : List Expr → Expr → Prop
  | single {operand : Expr} : Folded join [operand] operand
  | halves {operands : List Expr} {left right : Expr} :
      2 ≤ operands.length →
        Folded join (operands.take (operands.length / 2)) left →
          Folded join (operands.drop (operands.length / 2)) right →
            Folded join operands (join left right)

/-- The kinds of expressions, from the loosest binding to the tightest. -/
inductive Category
  | disjunction
  | conjunction
  | unary
  | primary

/-- The tokens of an expression in which at most `nesting` parentheses are open at any place. Those
of a call hold a name and no expression, and do not count. -/
inductive Derives : Category → Nat → List Token → Expr → Prop
  | or {nesting : Nat} {first : List Token × Expr} {others : List (List Token × Expr)}
      {tokens : List Token} {expr : Expr} :
      (∀ operand ∈ first :: others, Derives .conjunction nesting operand.1 operand.2) →
        Repeated "or" (others.map Prod.fst) tokens →
          Folded .or ((first :: others).map Prod.snd) expr →
            Derives .disjunction nesting (first.1 ++ tokens) expr
  | and {nesting : Nat} {first : List Token × Expr} {others : List (List Token × Expr)}
      {tokens : List Token} {expr : Expr} :
      (∀ operand ∈ first :: others, Derives .unary nesting operand.1 operand.2) →
        Repeated "and" (others.map Prod.fst) tokens →
          Folded .and ((first :: others).map Prod.snd) expr →
            Derives .conjunction nesting (first.1 ++ tokens) expr
  | not {nesting : Nat} {word : Token} {tokens : List Token} {operand : Expr} :
      IsKeyword "not" word → Derives .unary nesting tokens operand →
        Derives .unary nesting (word :: tokens) (.not operand)
  | primary {nesting : Nat} {tokens : List Token} {expr : Expr} :
      Derives .primary nesting tokens expr → Derives .unary nesting tokens expr
  | parens {nesting : Nat} {tokens : List Token} {expr : Expr} {opening closing : Position} :
      Derives .disjunction nesting tokens expr →
        Derives .primary (nesting + 1)
          (⟨.openParen, opening⟩ :: tokens ++ [⟨.closeParen, closing⟩]) expr
  | leaf {nesting : Nat} {tokens : List Token} {expr : Expr} :
      Leaf tokens expr → Derives .primary nesting tokens expr

def effectWord : Effect → String
  | .allow => "allow"
  | .deny => "deny"

/-- The tokens of a statement. Its line is that of its first token. -/
inductive IsStatement (nesting : Nat) : List Token → Statement → Prop
  | define {word as : Token} {name : String} {position : Position} {tokens : List Token}
      {body : Expr} :
      IsKeyword "define" word → IsKeyword "as" as → Derives .disjunction nesting tokens body →
        IsStatement nesting (word :: ⟨.bracketed name, position⟩ :: as :: tokens)
          (.define name body word.position.line)
  | rule {word : Token} {effect : Effect} {tokens : List Token} {condition : Expr} :
      IsKeyword (effectWord effect) word → Derives .disjunction nesting tokens condition →
        IsStatement nesting (word :: tokens) (.rule effect condition word.position.line)
  | ruleIf {word «if» : Token} {effect : Effect} {tokens : List Token} {condition : Expr} :
      IsKeyword (effectWord effect) word → IsKeyword "if" «if» →
        Derives .disjunction nesting tokens condition →
          IsStatement nesting (word :: «if» :: tokens)
            (.rule effect condition word.position.line)

/-- The tokens of statements, one after the other and with nothing between them. -/
inductive IsDocument (nesting : Nat) : List Token → List Statement → Prop
  | nil : IsDocument nesting [] []
  | cons {front tokens : List Token} {statement : Statement} {statements : List Statement} :
      IsStatement nesting front statement → IsDocument nesting tokens statements →
        IsDocument nesting (front ++ tokens) (statement :: statements)

end Grammar

def Expr.references : Expr → List String
  | .and left right => left.references ++ right.references
  | .or left right => left.references ++ right.references
  | .not operand => operand.references
  | .reference name => [name]
  | _ => []

namespace Document

def definedBy (statements : List Statement) : List String := statements.filterMap Statement.defined?

/-- A name is defined once, and used only after the statement that defines it. -/
structure Scoped (document : Document) : Prop where
  once : (definedBy document.statements).Nodup
  earlier : ∀ (position : Nat) (statement : Statement),
    document.statements[position]? = some statement →
      ∀ name ∈ statement.expr.references, name ∈ definedBy (document.statements.take position)

/-- No expression is deeper than the language allows. -/
def Shallow (document : Document) : Prop :=
  ∀ statement ∈ document.statements, statement.expr.depth ≤ maxDepth

end Document

end TagPolicy.Language
