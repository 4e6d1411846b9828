import TagPolicy.Language.SourceError
import TagPolicy.Text.Blank

/-!
Division of a text into tokens. The scanner reads one character at a time and its state says what it
is in the middle of, so a text is scanned by one pass over its characters. Blanks and comments
separate tokens and leave nothing behind. The first error in the order of the text is reported.
-/

namespace TagPolicy.Language

open Text (Position)

def isWordChar (char : Char) : Bool :=
  char.isAlphanum || char == '_' || char == '$' || char == '.' || char == ':' || char == '-'

/-- What the scanner is in the middle of. Characters already read are kept last first. -/
inductive Scan
  | between
  | comment
  | word (start : Position) (seen : List Char)
  | name (bracket : Bracket) (start : Position) (seen : List Char)
  | quoted (start : Position) (seen : List Char)
  /-- In a quoted string, after a backslash. -/
  | escape (start : Position) (seen : List Char)
  /-- After the first character of a comparison. -/
  | comparison (start : Position) (first : Char)
deriving DecidableEq, Repr

def textOfSeen (seen : List Char) : String := String.ofList seen.reverse

def wordToken (start : Position) (seen : List Char) : Token := ⟨.word (textOfSeen seen), start⟩

def begin (position : Position) (char : Char) : Except SourceError (Scan × List Token) :=
  if Text.isBlank char then .ok (.between, [])
  else if char = '#' then .ok (.comment, [])
  else if char = '(' then .ok (.between, [⟨.openParen, position⟩])
  else if char = ')' then .ok (.between, [⟨.closeParen, position⟩])
  else if char = '=' ∨ char = '!' then .ok (.comparison position char, [])
  else if char = Bracket.curly.opening then .ok (.name .curly position [], [])
  else if char = Bracket.square.opening then .ok (.name .square position [], [])
  else if char = '"' then .ok (.quoted position [], [])
  else if isWordChar char then .ok (.word position [char], [])
  else .error ⟨position, .strayCharacter char⟩

def Scan.step (scan : Scan) (position : Position) (char : Char) :
    Except SourceError (Scan × List Token) :=
  match scan with
  | .between => begin position char
  | .comment => .ok (if char = '\n' then .between else .comment, [])
  | .word start seen =>
      if isWordChar char then .ok (.word start (char :: seen), [])
      else do
        let (scan, tokens) ← begin position char
        pure (scan, wordToken start seen :: tokens)
  | .name bracket start seen =>
      if char = bracket.closing then
        let name := Text.trim (textOfSeen seen)
        if name = "" then .error ⟨start, .emptyName bracket⟩
        else .ok (.between, [⟨bracket.lexeme name, start⟩])
      else if char = '\n' then .error ⟨start, .unterminatedName bracket⟩
      else .ok (.name bracket start (char :: seen), [])
  | .quoted start seen =>
      if char = '"' then .ok (.between, [⟨.quoted (textOfSeen seen), start⟩])
      else if char = '\\' then .ok (.escape start seen, [])
      else .ok (.quoted start (char :: seen), [])
  | .escape start seen => .ok (.quoted start (char :: seen), [])
  | .comparison start first =>
      if char = '=' then
        .ok (.between, [⟨if first = '=' then .equal else .unequal, start⟩])
      else .error ⟨start, .halfComparison first⟩

def Scan.finish : Scan → Except SourceError (List Token)
  | .between => .ok []
  | .comment => .ok []
  | .word start seen => .ok [wordToken start seen]
  | .name bracket start _ => .error ⟨start, .unterminatedName bracket⟩
  | .quoted start _ => .error ⟨start, .unterminatedString⟩
  | .escape start _ => .error ⟨start, .unterminatedString⟩
  | .comparison start first => .error ⟨start, .halfComparison first⟩

def Scan.run (scan : Scan) (position : Position) :
    List Char → Except SourceError (List Token)
  | [] => scan.finish
  | char :: rest => do
      let (scan, tokens) ← scan.step position char
      let later ← scan.run (position.next char) rest
      pure (tokens ++ later)

def tokenize (text : String) : Except SourceError (List Token) :=
  Scan.between.run .start text.toList

end TagPolicy.Language
