import TagPolicy.Language.Token

/-!
Errors in rule text: a cause and the place it is reported at.
-/

namespace TagPolicy.Language

/-- The deepest expression tree accepted anywhere, where a leaf has depth one. -/
def maxDepth : Nat := 128

inductive Cause
  /-- A character that begins no token. -/
  | strayCharacter (char : Char)
  /-- One character of a comparison without its equals sign. -/
  | halfComparison (char : Char)
  /-- A bracket whose closing character is not on its line. -/
  | unterminatedName (bracket : Bracket)
  /-- Brackets with nothing but blanks between them. -/
  | emptyName (bracket : Bracket)
  | unterminatedString
  | nameAfterDefineExpected
  | alreadyDefined (name : String)
  | asExpected
  | statementExpected
  | expressionExpected
  | unknownPredicate (name : String)
  | comparisonExpected (name : String)
  | unknownFunction (word : String)
  | unexpectedWord (word : String)
  | unexpectedToken (lexeme : Lexeme)
  | nameExpected
  | closingParenExpected
  | valueExpected
  /-- A word in the place of a value that denotes no value. -/
  | notAValue (word : String)
  | tooDeep
deriving DecidableEq, Repr

def Cause.message : Cause → String
  | .strayCharacter char => "unexpected character `" ++ char.toString ++ "`"
  | .halfComparison char =>
      "unexpected character `" ++ char.toString ++ "` (did you mean `" ++ char.toString ++ "=`?)"
  | .unterminatedName bracket =>
      "unterminated `" ++ bracket.opening.toString ++ "`, expected `" ++
        bracket.closing.toString ++ "`"
  | .emptyName bracket =>
      "empty name inside `" ++ bracket.opening.toString ++ bracket.closing.toString ++ "`"
  | .unterminatedString => "unterminated string literal"
  | .nameAfterDefineExpected => "expected `[name]` after DEFINE"
  | .alreadyDefined name => "predicate [" ++ name ++ "] is already defined"
  | .asExpected => "expected `as`"
  | .statementExpected => "expected ALLOW, DENY or DEFINE"
  | .expressionExpected => "unexpected end of input, expected an expression"
  | .unknownPredicate name => "unknown predicate [" ++ name ++ "]"
  | .comparisonExpected name =>
      "attr(" ++ name ++ ") must be followed by `==` or `!=`"
  | .unknownFunction word => "unknown predicate `" ++ word ++ "`"
  | .unexpectedWord word => "unexpected word `" ++ word ++ "`"
  | .unexpectedToken lexeme => "unexpected token " ++ lexeme.describe
  | .nameExpected => "expected a name"
  | .closingParenExpected => "expected closing parenthesis `)`"
  | .valueExpected => "expected a string literal, integer or boolean"
  | .notAValue word =>
      "expected a string literal, integer or boolean, found `" ++ word ++ "`"
  | .tooDeep => s!"expression nests deeper than {maxDepth} levels"

structure SourceError where
  position : Text.Position
  cause : Cause
deriving DecidableEq, Repr

def located (position : Text.Position) (message : String) : String :=
  s!"{position.line}:{position.column}: {message}"

def SourceError.message (error : SourceError) : String :=
  located error.position error.cause.message

end TagPolicy.Language
