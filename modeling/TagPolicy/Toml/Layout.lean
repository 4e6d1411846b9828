/-!
What stands between the items of a document: spaces, comments and the ends of lines.
-/

namespace TagPolicy.Toml

abbrev Reader (α : Type) := List Char → Option (α × List Char)

def isSpace (char : Char) : Bool := char == ' ' || char == '\t'

def isControl (char : Char) : Bool := (char.toNat < 0x20 && char != '\t') || char.toNat == 0x7F

def skipSpaces (chars : List Char) : List Char := chars.dropWhile isSpace

def skipComment : List Char → List Char
  | '#' :: rest => rest.dropWhile fun char => !isControl char
  | chars => chars

def afterLineEnd? : List Char → Option (List Char)
  | [] => some []
  | '\n' :: rest => some rest
  | '\r' :: '\n' :: rest => some rest
  | _ => none

def finishLine? (chars : List Char) : Option (List Char) :=
  afterLineEnd? (skipComment (skipSpaces chars))

/-- The characters after spaces, comments and ends of lines. The flag says that they begin within a
comment; a control character in a comment is not passed. -/
def skipLines (inComment : Bool) : List Char → List Char
  | [] => []
  | '\r' :: '\n' :: rest => skipLines false rest
  | char :: rest =>
      if char = '\n' then skipLines false rest
      else if inComment then
        if isControl char then char :: rest else skipLines true rest
      else if isSpace char then skipLines false rest
      else if char = '#' then skipLines true rest
      else char :: rest

end TagPolicy.Toml
