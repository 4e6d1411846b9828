/-!
Octets as text in base sixty-four, with padding. Three octets become four characters; one or two
octets at the end are filled up with padding, and the bits that the padding stands for are zero.
Decoding refuses any other form, so every list of octets has one text.
-/

namespace TagPolicy.Base64

def padding : Char := '='

def charOf (value : Nat) : Char :=
  if value < 26 then Char.ofNat ('A'.toNat + value)
  else if value < 52 then Char.ofNat ('a'.toNat + (value - 26))
  else if value < 62 then Char.ofNat ('0'.toNat + (value - 52))
  else if value = 62 then '+'
  else '/'

def valueOf? (char : Char) : Option Nat :=
  if 'A' ≤ char ∧ char ≤ 'Z' then some (char.toNat - 'A'.toNat)
  else if 'a' ≤ char ∧ char ≤ 'z' then some (char.toNat - 'a'.toNat + 26)
  else if '0' ≤ char ∧ char ≤ '9' then some (char.toNat - '0'.toNat + 52)
  else if char = '+' then some 62
  else if char = '/' then some 63
  else none

def encodeChars : List UInt8 → List Char
  | [] => []
  | [first] =>
      [charOf (first.toNat / 4), charOf (first.toNat % 4 * 16), padding, padding]
  | [first, second] =>
      [charOf (first.toNat / 4), charOf (first.toNat % 4 * 16 + second.toNat / 16),
        charOf (second.toNat % 16 * 4), padding]
  | first :: second :: third :: rest =>
      charOf (first.toNat / 4) :: charOf (first.toNat % 4 * 16 + second.toNat / 16) ::
        charOf (second.toNat % 16 * 4 + third.toNat / 64) :: charOf (third.toNat % 64) ::
          encodeChars rest

/-- The octet that a last group of two characters and padding writes. -/
def decodeOne (first second : Char) : Option (List UInt8) := do
  let first ← valueOf? first
  let second ← valueOf? second
  if second % 16 = 0 then some [UInt8.ofNat (first * 4 + second / 16)] else none

/-- The octets that a last group of three characters and padding writes. -/
def decodeTwo (first second third : Char) : Option (List UInt8) := do
  let first ← valueOf? first
  let second ← valueOf? second
  let third ← valueOf? third
  if third % 4 = 0 then
    some [UInt8.ofNat (first * 4 + second / 16), UInt8.ofNat (second % 16 * 16 + third / 4)]
  else none

def decodeThree (first second third fourth : Char) : Option (List UInt8) := do
  let first ← valueOf? first
  let second ← valueOf? second
  let third ← valueOf? third
  let fourth ← valueOf? fourth
  some [UInt8.ofNat (first * 4 + second / 16), UInt8.ofNat (second % 16 * 16 + third / 4),
    UInt8.ofNat (third % 4 * 64 + fourth)]

def decodeChars : List Char → Option (List UInt8)
  | [] => some []
  | first :: second :: third :: fourth :: rest =>
      if rest = [] ∧ fourth = padding then
        if third = padding then decodeOne first second else decodeTwo first second third
      else do
        let group ← decodeThree first second third fourth
        let later ← decodeChars rest
        some (group ++ later)
  | _ => none

def encode (octets : List UInt8) : String := String.ofList (encodeChars octets)

def decode (text : String) : Option (List UInt8) := decodeChars text.toList

end TagPolicy.Base64
