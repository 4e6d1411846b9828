import TagPolicy.Toml.Number

/-!
Dates and times of day in documents. A date may have a time of day after it, and then an offset from
the universal time; the parts have a fixed count of digits, and every date is one of the calendar.
-/

namespace TagPolicy.Toml

/-- A decimal number of so many digits, after digits of the value already read. -/
def readCount : Nat → Nat → Reader Nat
  | 0, value, chars => some (value, chars)
  | _ + 1, _, [] => none
  | count + 1, value, char :: rest =>
      (digitIn? 10 char).bind fun digit => readCount count (value * 10 + digit) rest

def readPair (low high : Nat) (chars : List Char) : Option (Nat × List Char) :=
  (readCount 2 0 chars).filter fun read => low ≤ read.1 && read.1 ≤ high

def afterMark? (mark : Char) : List Char → Option (List Char)
  | [] => none
  | char :: rest => if char = mark then some rest else none

def daysIn (year month : Nat) : Nat :=
  if month = 2 then
    if year % 4 = 0 ∧ (year % 100 ≠ 0 ∨ year % 400 = 0) then 29 else 28
  else if month ∈ [4, 6, 9, 11] then 30
  else 31

/-- Whether a date begins here: four digits and a dash. -/
def beginsDate (chars : List Char) : Bool :=
  (readCount 4 0 chars).any fun read => read.2.head? = some '-'

/-- Whether a time of day begins here: two digits and a colon. -/
def beginsTime (chars : List Char) : Bool :=
  (readCount 2 0 chars).any fun read => read.2.head? = some ':'

def afterFraction? : List Char → Option (List Char)
  | '.' :: rest =>
      if rest.head?.any Char.isDigit then some (rest.dropWhile Char.isDigit) else none
  | chars => some chars

def afterTime? (chars : List Char) : Option (List Char) := do
  let (_, rest) ← readPair 0 23 chars
  let (_, rest) ← readPair 0 59 (← afterMark? ':' rest)
  let (_, rest) ← readPair 0 60 (← afterMark? ':' rest)
  afterFraction? rest

def afterShift? (chars : List Char) : Option (List Char) := do
  let (_, rest) ← readPair 0 23 chars
  let (_, rest) ← readPair 0 59 (← afterMark? ':' rest)
  some rest

def afterOffset? : List Char → Option (List Char)
  | 'Z' :: rest => some rest
  | 'z' :: rest => some rest
  | '+' :: rest => afterShift? rest
  | '-' :: rest => afterShift? rest
  | chars => some chars

def afterDate? (chars : List Char) : Option (List Char) := do
  let (year, rest) ← readCount 4 0 chars
  let (month, rest) ← readPair 1 12 (← afterMark? '-' rest)
  let (_, rest) ← readPair 1 (daysIn year month) (← afterMark? '-' rest)
  match rest with
  | [] => some []
  | char :: later =>
      if char ∈ ['T', 't', ' '] ∧ beginsTime later then do afterOffset? (← afterTime? later)
      else some rest

def readQuantity (chars : List Char) : Option (Toml × List Char) :=
  if beginsDate chars then (afterDate? chars).map (Toml.moment, ·)
  else if beginsTime chars then (afterTime? chars).map (Toml.moment, ·)
  else readNumber chars

end TagPolicy.Toml
