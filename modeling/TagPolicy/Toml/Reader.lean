import TagPolicy.Toml.Draft
import TagPolicy.Toml.Moment
import TagPolicy.Toml.Quoted

/-!
The reading of documents: headers of tables and of arrays of tables, bare, quoted and dotted keys,
and their values. Arrays and inline tables are nested, and keys are dotted, only so deep.
-/

namespace TagPolicy.Toml

/-- How deep arrays and inline tables may be nested, and how many parts a key may have. -/
def maxDepth : Nat := 79

def isKeyChar (char : Char) : Bool := char.isAlphanum || char == '_' || char == '-'

def readKeyPart (chars : List Char) : Option (String × List Char) :=
  let bare := chars.takeWhile isKeyChar
  if bare.isEmpty then readShort chars
  else some (String.ofList bare, chars.dropWhile isKeyChar)

/-- The parts of a key after its first one, and the spaces after them; at most `limit` parts. -/
def readKeyRest : Nat → Reader (List String)
  | limit, chars =>
      match skipSpaces chars with
      | '.' :: rest =>
          match limit with
          | 0 => none
          | limit + 1 => do
              let (part, rest) ← readKeyPart (skipSpaces rest)
              let (parts, rest) ← readKeyRest limit rest
              some (part :: parts, rest)
      | rest => some ([], rest)

def readKey (chars : List Char) : Option (Key × List Char) := do
  let (part, rest) ← readKeyPart (skipSpaces chars)
  let (parts, rest) ← readKeyRest (maxDepth - 1) rest
  some ((part, parts), rest)

def readSimple : Reader Toml
  | 't' :: 'r' :: 'u' :: 'e' :: rest => some (.boolean true, rest)
  | 'f' :: 'a' :: 'l' :: 's' :: 'e' :: rest => some (.boolean false, rest)
  | '"' :: rest => (readString ('"' :: rest)).map fun read => (.text read.1, read.2)
  | '\x27' :: rest => (readString ('\x27' :: rest)).map fun read => (.text read.1, read.2)
  | chars => readQuantity chars

/-- The items of an array, each read by `item`, after the items already read, the latest first; at
most `limit` items. -/
def readItems (item : Reader Toml) : Nat → List Toml → Reader Toml
  | limit, done, chars =>
      match skipLines false chars with
      | ']' :: rest => some (.array done.reverse, rest)
      | chars =>
          match limit, item chars with
          | limit + 1, some (value, rest) =>
              match skipLines false rest with
              | ']' :: rest => some (.array (value :: done).reverse, rest)
              | ',' :: rest => readItems item limit (value :: done) rest
              | _ => none
          | _, _ => none

def readPairs (item : Reader Toml) : Nat → Entries → Reader Toml
  | 0, _, _ => none
  | limit + 1, entries, chars =>
      match readKey chars with
      | some (key, '=' :: rest) =>
          match item (skipSpaces rest) with
          | some (value, rest) =>
              match entries.give value key.1 key.2, skipSpaces rest with
              | some entries, '\x7d' :: rest => some (.table (Part.values entries), rest)
              | some entries, ',' :: rest => readPairs item limit entries rest
              | _, _ => none
          | none => none
      | _ => none

/-- A value in which arrays and inline tables are nested at most `depth` deep; none has more than
`limit` items. -/
def readValue (limit : Nat) : Nat → Reader Toml
  | 0, chars => readSimple chars
  | depth + 1, '[' :: rest => readItems (readValue limit depth) limit [] rest
  | depth + 1, '\x7b' :: rest =>
      match skipSpaces rest with
      | '\x7d' :: rest => some (.table [], rest)
      | rest => readPairs (readValue limit depth) limit [] rest
  | _ + 1, chars => readSimple chars

def readItem (limit : Nat) (draft : Draft) : Reader Draft
  | '[' :: '[' :: rest => do
      match ← readKey rest with
      | (key, ']' :: ']' :: rest) => (draft.openNext key).map (·, rest)
      | _ => none
  | '[' :: rest => do
      match ← readKey rest with
      | (key, ']' :: rest) => (draft.openTable key).map (·, rest)
      | _ => none
  | chars => do
      match ← readKey chars with
      | (key, '=' :: rest) => do
          let (value, rest) ← readValue limit maxDepth (skipSpaces rest)
          (draft.give key value).map (·, rest)
      | _ => none

/-- The draft after the lines of a document; at most `limit` of them say something, and no array has
more than `size` items. -/
def readDraft (size : Nat) : Nat → Draft → List Char → Option Draft
  | limit, draft, chars =>
      match skipLines false chars with
      | [] => some draft
      | chars =>
          match limit, readItem size draft chars with
          | limit + 1, some (draft, rest) =>
              match finishLine? rest with
              | some rest => readDraft size limit draft rest
              | none => none
          | _, _ => none

def skipByteOrderMark : List Char → List Char
  | '\uFEFF' :: rest => rest
  | chars => chars

def parse (text : String) : Option (List (String × Toml)) :=
  let chars := skipByteOrderMark text.toList
  (readDraft chars.length chars.length .empty chars).map Draft.values

end TagPolicy.Toml
