import TagPolicy.Language.Document
import TagPolicy.Language.Lexer
import TagPolicy.Text.Letter

/-!
The reading of documents from tokens. Keywords and function names are recognised in any case of
their letters. In order of binding, from the tightest, an expression is a leaf or an expression in
parentheses, any number of NOTs before one of these, an AND chain, and an OR chain. A chain becomes
a balanced tree, so its length alone never makes it deep.

Two bounds keep expressions shallow: at most `maxDepth` parentheses are open at any place, and no
expression tree is deeper than `maxDepth`. An error is reported at the first token of the smallest
expression that breaks a bound.
-/

namespace TagPolicy.Language

open Text (Position sameWord)

/-- What readers know besides the tokens that lie before them. -/
structure Scope where
  defined : List String
  finish : Position

abbrev Reader (α : Type) := List Token → Except SourceError (α × List Token)

def Scope.here (scope : Scope) : List Token → Position
  | [] => scope.finish
  | token :: _ => token.position

def nextIs (keyword : String) : List Token → Bool
  | ⟨.word word, _⟩ :: _ => sameWord word keyword
  | _ => false

def valueOfWord? (word : String) : Option Value :=
  match Text.int64? word with
  | some number => some (.integer number)
  | none =>
      if sameWord word "true" then some (.boolean true)
      else if sameWord word "false" then some (.boolean false)
      else none

def readValue (scope : Scope) : Reader Value
  | ⟨.quoted text, _⟩ :: rest => .ok (.text text, rest)
  | ⟨.word word, position⟩ :: rest =>
      match valueOfWord? word with
      | some value => .ok (value, rest)
      | none => .error ⟨position, .notAValue word⟩
  | tokens => .error ⟨scope.here tokens, .valueExpected⟩

def readClosing (scope : Scope) {α : Type} (item : α) : Reader α
  | ⟨.closeParen, _⟩ :: rest => .ok (item, rest)
  | tokens => .error ⟨scope.here tokens, .closingParenExpected⟩

/-- The name in a call and its closing parenthesis; the opening one has been read. -/
def readName (scope : Scope) : Reader String
  | ⟨.word name, position⟩ :: rest =>
      if name = "" then .error ⟨position, .nameExpected⟩ else readClosing scope name rest
  | ⟨.quoted name, position⟩ :: rest =>
      if name = "" then .error ⟨position, .nameExpected⟩ else readClosing scope name rest
  | tokens => .error ⟨scope.here tokens, .nameExpected⟩

def readComparison (scope : Scope) (start : Position) (name : String) : Reader Expr
  | ⟨.equal, _⟩ :: rest => do
      let (value, rest) ← readValue scope rest
      pure (.attr name .equal value, rest)
  | ⟨.unequal, _⟩ :: rest => do
      let (value, rest) ← readValue scope rest
      pure (.attr name .unequal value, rest)
  | _ => .error ⟨start, .comparisonExpected name⟩

def readWord (scope : Scope) (word : String) (start : Position) (tokens : List Token) :
    Except SourceError (Expr × List Token) :=
  if sameWord word "true" then .ok (.literal true, tokens)
  else if sameWord word "false" then .ok (.literal false, tokens)
  else match tokens with
    | ⟨.openParen, _⟩ :: rest =>
        if sameWord word "tag" then do
          let (name, rest) ← readName scope rest
          pure (.tag name, rest)
        else if sameWord word "attr" then do
          let (name, rest) ← readName scope rest
          readComparison scope start name rest
        else .error ⟨start, .unknownFunction word⟩
    | _ => .error ⟨start, .unexpectedWord word⟩

def readLeaf (scope : Scope) : Reader Expr
  | [] => .error ⟨scope.finish, .expressionExpected⟩
  | ⟨.braced name, _⟩ :: rest => .ok (.tag name, rest)
  | ⟨.bracketed name, position⟩ :: rest =>
      if name ∈ scope.defined then .ok (.reference name, rest)
      else .error ⟨position, .unknownPredicate name⟩
  | ⟨.word word, position⟩ :: rest => readWord scope word position rest
  | ⟨lexeme, position⟩ :: _ => .error ⟨position, .unexpectedToken lexeme⟩

/-- An expression in parentheses, read by `inner` if one more parenthesis may be open, or a leaf. -/
def readPrimary (scope : Scope) (inner : Option (Reader Expr)) : Reader Expr
  | ⟨.openParen, position⟩ :: rest =>
      match inner with
      | none => .error ⟨position, .tooDeep⟩
      | some read => do
          let (expr, rest) ← read rest
          readClosing scope expr rest
  | tokens => readLeaf scope tokens

def leadingNots : List Token → Nat × List Token
  | [] => (0, [])
  | token :: rest =>
      if nextIs "not" [token] then
        let (count, rest) := leadingNots rest
        (count + 1, rest)
      else (0, token :: rest)

def bounded (start : Position) (expr : Expr) (rest : List Token) :
    Except SourceError (Expr × List Token) :=
  if expr.depth ≤ maxDepth then .ok (expr, rest) else .error ⟨start, .tooDeep⟩

def readUnary (scope : Scope) (inner : Option (Reader Expr)) (tokens : List Token) :
    Except SourceError (Expr × List Token) :=
  let (count, afterNots) := leadingNots tokens
  if maxDepth ≤ count then .error ⟨scope.here tokens, .tooDeep⟩
  else do
    let (operand, rest) ← readPrimary scope inner afterNots
    bounded (scope.here tokens) (operand.negated count) rest

/-- The operands of a chain after its first, each behind the keyword of the chain. No more of them
are read than there are tokens in a bound; every one takes a token, so the tokens that are read from
are bound enough. -/
def readOperands (keyword : String) (operand : Reader Expr) : List Token → Reader (List Expr)
  | [], tokens => .ok ([], tokens)
  | _ :: bound, tokens =>
      if nextIs keyword tokens then do
        let (first, rest) ← operand tokens.tail
        let (others, rest) ← readOperands keyword operand bound rest
        pure (first :: others, rest)
      else .ok ([], tokens)

def readChain (scope : Scope) (keyword : String) (join : Expr → Expr → Expr)
    (operand : Reader Expr) (tokens : List Token) : Except SourceError (Expr × List Token) := do
  let (first, rest) ← operand tokens
  let (others, rest) ← readOperands keyword operand rest rest
  bounded (scope.here tokens) (Expr.balanced join first others) rest

def readChains (scope : Scope) (inner : Option (Reader Expr)) : Reader Expr :=
  readChain scope "or" .or (readChain scope "and" .and (readUnary scope inner))

/-- An expression in which at most `nesting` parentheses are open at any place. -/
def readExpr (scope : Scope) : Nat → Reader Expr
  | 0 => readChains scope none
  | nesting + 1 => readChains scope (some (readExpr scope nesting))

def readDefinition (scope : Scope) (start : Position) : Reader Statement
  | ⟨.bracketed name, _⟩ :: rest =>
      if name ∈ scope.defined then .error ⟨start, .alreadyDefined name⟩
      else if nextIs "as" rest then do
        let (body, rest) ← readExpr scope maxDepth rest.tail
        pure (.define name body start.line, rest)
      else .error ⟨scope.here rest, .asExpected⟩
  | _ => .error ⟨start, .nameAfterDefineExpected⟩

/-- A rule, after its effect; the word IF may be left out. -/
def readRule (scope : Scope) (start : Position) (effect : Effect) (tokens : List Token) :
    Except SourceError (Statement × List Token) := do
  let body := if nextIs "if" tokens then tokens.tail else tokens
  let (condition, rest) ← readExpr scope maxDepth body
  pure (.rule effect condition start.line, rest)

def readStatement (scope : Scope) (tokens : List Token) :
    Except SourceError (Statement × List Token) :=
  let start := scope.here tokens
  if nextIs "define" tokens then readDefinition scope start tokens.tail
  else if nextIs "allow" tokens then readRule scope start .allow tokens.tail
  else if nextIs "deny" tokens then readRule scope start .deny tokens.tail
  else .error ⟨start, .statementExpected⟩

/-- The statements that tokens write, where some predicates are defined already. At most `limit`
statements are read; every one takes a token, so the number of tokens is limit enough. -/
def readStatements (finish : Position) :
    Nat → List String → List Token → Except SourceError (List Statement)
  | _, _, [] => .ok []
  | 0, _, _ => .ok []
  | limit + 1, defined, tokens => do
      let (statement, rest) ← readStatement ⟨defined, finish⟩ tokens
      let later ← readStatements finish limit (statement.defined?.toList ++ defined) rest
      pure (statement :: later)

def Document.ofTokens (finish : Position) (tokens : List Token) : Except SourceError Document := do
  let statements ← readStatements finish tokens.length [] tokens
  pure ⟨statements⟩

def Document.parse (text : String) : Except SourceError Document := do
  let tokens ← tokenize text
  Document.ofTokens (.finish text) tokens

end TagPolicy.Language
