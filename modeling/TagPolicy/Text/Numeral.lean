/-!
Decimal integers in text. A signed numeral is at most one sign and at least one ASCII digit; it is
read only if its value fits 64 bits.
-/

namespace TagPolicy.Text

def digit? (char : Char) : Option Nat :=
  if '0' ≤ char ∧ char ≤ '9' then some (char.toNat - '0'.toNat) else none

def digitsFrom (value : Nat) : List Char → Option Nat
  | [] => some value
  | char :: rest => (digit? char).bind fun digit => digitsFrom (value * 10 + digit) rest

def natural? : List Char → Option Nat
  | [] => none
  | chars => digitsFrom 0 chars

def signed? : List Char → Option Int
  | '-' :: digits => (natural? digits).map fun value => -(value : Int)
  | '+' :: digits => (natural? digits).map fun value => (value : Int)
  | digits => (natural? digits).map fun value => (value : Int)

def fitsInt64 (value : Int) : Bool := -0x8000000000000000 ≤ value && value < 0x8000000000000000

def int64? (word : String) : Option Int64 :=
  (signed? word.toList).bind fun value => if fitsInt64 value then some (Int64.ofInt value) else none

/-- The natural number below a bound that a word denotes: an optional plus sign and digits. -/
def naturalBelow? (bound : Nat) (word : String) : Option Nat :=
  let digits := match word.toList with
    | '+' :: rest => rest
    | chars => chars
  (natural? digits).bind fun value => if value < bound then some value else none

end TagPolicy.Text
