import TagPolicy.Language.Expr

/-!
Documents of the rule language: the statements of a text in their order.
-/

namespace TagPolicy.Language

inductive Statement
  /-- A name for an expression, which later statements may use. -/
  | define (name : String) (body : Expr) (line : Nat)
  | rule (effect : Effect) (condition : Expr) (line : Nat)
deriving DecidableEq, Repr

def Statement.expr : Statement → Expr
  | define _ body _ => body
  | rule _ condition _ => condition

def Statement.line : Statement → Nat
  | define _ _ line => line
  | rule _ _ line => line

def Statement.isRule : Statement → Bool
  | define .. => false
  | rule .. => true

def Statement.defined? : Statement → Option String
  | define name _ _ => some name
  | rule .. => none

structure Document where
  statements : List Statement
deriving DecidableEq, Repr

def Document.ruleCount (document : Document) : Nat := document.statements.countP Statement.isRule

end TagPolicy.Language
