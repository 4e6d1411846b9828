import TagPolicy.Text.Numeral
import TagPolicy.Toml.Basic
import TagPolicy.Toml.Layout

/-!
Numbers in documents. An integer is decimal, with or without a sign, or of base sixteen, eight or
two, without a sign. A decimal integer does not begin with a needless zero, an underscore stands
between two digits, and an integer has 64 bits. A number with a fraction or an exponent is refused
if the double nearest to it is the positive infinity.
-/

namespace TagPolicy.Toml

def digitIn? (base : Nat) (char : Char) : Option Nat :=
  let value :=
    if '0' ≤ char ∧ char ≤ '9' then char.toNat - '0'.toNat
    else if 'a' ≤ char ∧ char ≤ 'f' then char.toNat - 'a'.toNat + 10
    else if 'A' ≤ char ∧ char ≤ 'F' then char.toNat - 'A'.toNat + 10
    else base
  if value < base then some value else none

def ofDigits (base : Nat) (digits : List Nat) : Nat :=
  digits.foldl (fun value digit => value * base + digit) 0

def readMoreDigits (base : Nat) (done : List Nat) : Reader (List Nat)
  | [] => some (done.reverse, [])
  | '_' :: char :: rest =>
      match digitIn? base char with
      | some digit => readMoreDigits base (digit :: done) rest
      | none => none
  | char :: rest =>
      match digitIn? base char with
      | some digit => readMoreDigits base (digit :: done) rest
      | none => some (done.reverse, char :: rest)

/-- At least one digit of a base, with single underscores between digits. -/
def readDigits (base : Nat) : Reader (List Nat)
  | [] => none
  | char :: rest => (digitIn? base char).bind fun digit => readMoreDigits base [digit] rest

/-- The digits of a decimal integer: a zero alone, or digits that begin with another one. -/
def readWhole : Reader (List Nat)
  | '0' :: rest => some ([0], rest)
  | chars => readDigits 10 chars

def integer? (number : Int) : Option Toml :=
  if Text.fitsInt64 number then some (.integer number) else none

def readBased (base : Nat) (chars : List Char) : Option (Toml × List Char) := do
  let (digits, rest) ← readDigits base chars
  let value ← integer? (ofDigits base digits)
  some (value, rest)

/-- The least number whose nearest double is infinite: it lies in the middle between the greatest
finite double and the power of two above it. -/
def overflowBound : Nat := (Nat.pow 2 54 - 1) * Nat.pow 2 970

/-- Whether the double nearest to a decimal number is infinite: the number is what the digits write,
times the power of ten of the scale. -/
def overflows (digits : List Nat) (scale : Int) : Bool :=
  let digits := digits.dropWhile (· = 0)
  let places := digits.length + scale
  if digits = [] ∨ places < 309 then false
  else if 309 < places then true
  else overflowBound * Nat.pow 10 (-scale).toNat ≤ ofDigits 10 digits * Nat.pow 10 scale.toNat

def readExponent (chars : List Char) : Option (Int × List Char) := do
  let (negative, chars) := match chars with
    | '-' :: rest => (true, rest)
    | '+' :: rest => (false, rest)
    | chars => (false, chars)
  let (digits, rest) ← readDigits 10 chars
  let power := ofDigits 10 digits
  some (if negative then -(power : Int) else power, rest)

def readOptionalExponent : Reader Int
  | 'e' :: rest => readExponent rest
  | 'E' :: rest => readExponent rest
  | chars => some (0, chars)

def float? (negative : Bool) (digits : List Nat) (scale : Int) : Option Toml :=
  if !negative && overflows digits scale then none else some .float

def readUnsigned (negative : Bool) : Reader Toml
  | 'i' :: 'n' :: 'f' :: rest => some (.float, rest)
  | 'n' :: 'a' :: 'n' :: rest => some (.float, rest)
  | chars => do
      let (whole, rest) ← readWhole chars
      match rest with
      | '.' :: rest => do
          let (fraction, rest) ← readDigits 10 rest
          let (power, rest) ← readOptionalExponent rest
          let value ← float? negative (whole ++ fraction) (power - fraction.length)
          some (value, rest)
      | 'e' :: rest => do
          let (power, rest) ← readExponent rest
          let value ← float? negative whole power
          some (value, rest)
      | 'E' :: rest => do
          let (power, rest) ← readExponent rest
          let value ← float? negative whole power
          some (value, rest)
      | rest => do
          let number : Int := ofDigits 10 whole
          let value ← integer? (if negative then -number else number)
          some (value, rest)

def readNumber : Reader Toml
  | '0' :: 'x' :: rest => readBased 16 rest
  | '0' :: 'o' :: rest => readBased 8 rest
  | '0' :: 'b' :: rest => readBased 2 rest
  | '+' :: rest => readUnsigned false rest
  | '-' :: rest => readUnsigned true rest
  | chars => readUnsigned false chars

end TagPolicy.Toml
