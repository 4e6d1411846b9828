/-!
Places in a text. A position counts the octets of the text's UTF-8 form before it, and the lines and
columns as a reader counts them: both start at one, and a column is one character wide.
-/

namespace TagPolicy.Text

structure Position where
  /-- Octets before the place. -/
  offset : Nat
  /-- One more than the number of line feeds before the place. -/
  line : Nat
  /-- One more than the number of characters since the last line feed. -/
  column : Nat
deriving DecidableEq, Repr, Inhabited

namespace Position

def start : Position := ⟨0, 1, 1⟩

def next (position : Position) (char : Char) : Position :=
  if char = '\n' then ⟨position.offset + char.utf8Size, position.line + 1, 1⟩
  else ⟨position.offset + char.utf8Size, position.line, position.column + 1⟩

def after (position : Position) (chars : List Char) : Position := chars.foldl next position

@[simp] theorem after_nil (position : Position) : position.after [] = position := rfl

@[simp] theorem after_cons (position : Position) (char : Char) (rest : List Char) :
    position.after (char :: rest) = (position.next char).after rest := rfl

theorem after_append (position : Position) (first second : List Char) :
    position.after (first ++ second) = (position.after first).after second := List.foldl_append

def charsBefore (offset : Nat) : List Char → List Char
  | [] => []
  | char :: rest =>
      if char.utf8Size ≤ offset then char :: charsBefore (offset - char.utf8Size) rest else []

/-- The place at an offset of a text; an offset past the end stands for the end. -/
def ofOffset (text : String) (offset : Nat) : Position :=
  start.after (charsBefore offset text.toList)

def finish (text : String) : Position := start.after text.toList

end Position

end TagPolicy.Text
