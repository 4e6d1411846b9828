import TagPolicy.Toml.Number

/-!
Strings in documents. A string in double quotes has escapes, a string in single quotes has none; in
three quotes a string may have several lines, and the end of the line after the opening quotes is
not part of it.
-/

namespace TagPolicy.Toml

def charOf? (code : Nat) : Option Char :=
  if code < 0xD800 ∨ (0xDFFF < code ∧ code < 0x110000) then some (Char.ofNat code) else none

inductive Escape
  /-- The letter after the backslash. -/
  | letter
  /-- A digit of a code point, with the count of digits after it and the value of those before. -/
  | digit (later value : Nat)

/-- What a character of an escape leads to: what comes next, or the character that is meant. -/
def Escape.read (char : Char) : Escape → Option (Escape ⊕ Char)
  | .letter =>
      match char with
      | 'b' => some (.inr '\x08')
      | 't' => some (.inr '\t')
      | 'n' => some (.inr '\n')
      | 'f' => some (.inr '\x0c')
      | 'r' => some (.inr '\r')
      | '"' => some (.inr '"')
      | '\\' => some (.inr '\\')
      | 'u' => some (.inl (.digit 3 0))
      | 'U' => some (.inl (.digit 7 0))
      | _ => none
  | .digit later value => do
      let value := value * 16 + (← digitIn? 16 char)
      match later with
      | 0 => (charOf? value).map .inr
      | later + 1 => some (.inl (.digit later value))

def contentOf (done : List Char) : String := String.ofList done.reverse

/-- The rest of a string with escapes, after the characters already read, the latest first. -/
def readEscaped (done : List Char) : Option Escape → Reader String
  | _, [] => none
  | some escape, char :: rest =>
      match escape.read char with
      | none => none
      | some (.inl escape) => readEscaped done (some escape) rest
      | some (.inr char) => readEscaped (char :: done) none rest
  | none, char :: rest =>
      if char = '"' then some (contentOf done, rest)
      else if char = '\\' then readEscaped done (some .letter) rest
      else if isControl char then none
      else readEscaped (char :: done) none rest

def readLiteral (done : List Char) : Reader String
  | [] => none
  | char :: rest =>
      if char = '\x27' then some (contentOf done, rest)
      else if isControl char then none
      else readLiteral (char :: done) rest

/-- The end of a string of several lines, after three quotes: up to two more quotes are its last
characters. -/
def closeLong (quote : Char) (done rest : List Char) : String × List Char :=
  let more := (rest.takeWhile (· = quote)).take 2
  (contentOf (more ++ done), rest.drop more.length)

inductive LongPlace
  /-- In the text; spaces and ends of lines are skipped after a line that ends in a backslash. -/
  | text (skipping : Bool)
  | escape (escape : Escape)
  /-- In the spaces between a backslash and the end of its line. -/
  | lineEnd

def readLongEscaped (done : List Char) : LongPlace → Reader String
  | .text _, '"' :: '"' :: '"' :: rest => some (closeLong '"' done rest)
  | .text skipping, '\r' :: '\n' :: rest =>
      readLongEscaped (if skipping then done else '\n' :: done) (.text skipping) rest
  | .text skipping, char :: rest =>
      if skipping && (isSpace char || char == '\n') then readLongEscaped done (.text true) rest
      else if char = '\\' then readLongEscaped done (.escape .letter) rest
      else if isControl char && char != '\n' then none
      else readLongEscaped (char :: done) (.text false) rest
  | .escape .letter, '\r' :: '\n' :: rest => readLongEscaped done (.text true) rest
  | .escape escape, char :: rest =>
      match escape, char with
      | .letter, '\n' => readLongEscaped done (.text true) rest
      | .letter, ' ' => readLongEscaped done .lineEnd rest
      | .letter, '\t' => readLongEscaped done .lineEnd rest
      | _, _ =>
          match escape.read char with
          | none => none
          | some (.inl escape) => readLongEscaped done (.escape escape) rest
          | some (.inr char) => readLongEscaped (char :: done) (.text false) rest
  | .lineEnd, '\r' :: '\n' :: rest => readLongEscaped done (.text true) rest
  | .lineEnd, char :: rest =>
      if char = '\n' then readLongEscaped done (.text true) rest
      else if isSpace char then readLongEscaped done .lineEnd rest
      else none
  | _, [] => none

def readLongLiteral (done : List Char) : Reader String
  | '\x27' :: '\x27' :: '\x27' :: rest => some (closeLong '\x27' done rest)
  | '\r' :: '\n' :: rest => readLongLiteral ('\n' :: done) rest
  | char :: rest =>
      if isControl char && char != '\n' then none else readLongLiteral (char :: done) rest
  | [] => none

def skipLineEnd : List Char → List Char
  | '\n' :: rest => rest
  | '\r' :: '\n' :: rest => rest
  | chars => chars

def readShort : Reader String
  | '"' :: rest => readEscaped [] none rest
  | '\x27' :: rest => readLiteral [] rest
  | _ => none

def readString : Reader String
  | '"' :: '"' :: '"' :: rest => readLongEscaped [] (.text false) (skipLineEnd rest)
  | '\x27' :: '\x27' :: '\x27' :: rest => readLongLiteral [] (skipLineEnd rest)
  | chars => readShort chars

end TagPolicy.Toml
