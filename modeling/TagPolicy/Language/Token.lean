import TagPolicy.Text.Position

/-!
Tokens of the rule language: what a token is, and where in the text it begins.
-/

namespace TagPolicy.Language

inductive Bracket
  | curly
  | square
deriving DecidableEq, Repr

def Bracket.opening : Bracket → Char
  | .curly => '\x7b'
  | .square => '['

def Bracket.closing : Bracket → Char
  | .curly => '\x7d'
  | .square => ']'

inductive Lexeme
  /-- A bare word: a keyword, a function, an integer or the name in a call. -/
  | word (text : String)
  | quoted (text : String)
  /-- A name in curly brackets, without the blanks around it. -/
  | braced (name : String)
  /-- A name in square brackets, without the blanks around it. -/
  | bracketed (name : String)
  | openParen
  | closeParen
  | equal
  | unequal
deriving DecidableEq, Repr

def Bracket.lexeme (bracket : Bracket) (name : String) : Lexeme :=
  match bracket with
  | .curly => .braced name
  | .square => .bracketed name

def Lexeme.describe : Lexeme → String
  | .word text => "`" ++ text ++ "`"
  | .quoted text => "\"" ++ text ++ "\""
  | .braced name => "\x7b" ++ name ++ "\x7d"
  | .bracketed name => "[" ++ name ++ "]"
  | .openParen => "`(`"
  | .closeParen => "`)`"
  | .equal => "`==`"
  | .unequal => "`!=`"

structure Token where
  lexeme : Lexeme
  position : Text.Position
deriving DecidableEq, Repr

end TagPolicy.Language
