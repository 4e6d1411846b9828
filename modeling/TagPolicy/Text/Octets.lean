/-!
The octets of a text in UTF-8, and the place of the first fault in octets that are no text.
Reading the octets of a text gives the text back (`text_of_octets_of`).
-/

namespace TagPolicy.Text

/-- Why octets are no text: the place of the first octet of the faulty sequence, and its length
unless the octets merely end inside it. -/
inductive OctetFault
  | invalid (length : Nat) (index : Nat)
  | incomplete (index : Nat)
deriving DecidableEq, Repr

def OctetFault.message : OctetFault → String
  | .invalid length index => s!"invalid utf-8 sequence of {length} bytes from index {index}"
  | .incomplete index => s!"incomplete utf-8 byte sequence from index {index}"

/-- The octets that may follow a first octet, as one range for each. No sequence starts with an
octet that continues one, that could only write a character longer than needed, or that would lie
past the last code point. -/
def followers (first : UInt8) : Option (List (UInt8 × UInt8)) :=
  let any : UInt8 × UInt8 := (0x80, 0xBF)
  if first ≤ 0x7F then some []
  else if first < 0xC2 then none
  else if first ≤ 0xDF then some [any]
  else if first = 0xE0 then some [(0xA0, 0xBF), any]
  else if first = 0xED then some [(0x80, 0x9F), any]
  else if first ≤ 0xEF then some [any, any]
  else if first = 0xF0 then some [(0x90, 0xBF), any, any]
  else if first ≤ 0xF3 then some [any, any, any]
  else if first = 0xF4 then some [(0x80, 0x8F), any, any]
  else none

/-- The first fault in octets that stand at an index, where the sequence begun before them has
`seen` octets and still expects octets in the `pending` ranges. -/
def faultFrom (index : Nat) (pending : List (UInt8 × UInt8)) (seen : Nat) :
    List UInt8 → Option OctetFault
  | [] => if pending.isEmpty then none else some (.incomplete (index - seen))
  | octet :: rest =>
      match pending with
      | [] =>
          match followers octet with
          | none => some (.invalid 1 index)
          | some expected => faultFrom (index + 1) expected 1 rest
      | (low, high) :: more =>
          if low ≤ octet ∧ octet ≤ high then faultFrom (index + 1) more (seen + 1) rest
          else some (.invalid seen (index - seen))

def octetsOf (text : String) : List UInt8 := text.toUTF8.data.toList

def textOf? (octets : List UInt8) : Option String := String.fromUTF8? ⟨octets.toArray⟩

theorem text_of_octets_of (text : String) : textOf? (octetsOf text) = some text := by
  have octets : (⟨(octetsOf text).toArray⟩ : ByteArray) = text.toUTF8 := by simp [octetsOf]
  rw [textOf?, octets, String.fromUTF8?]
  exact dif_pos text.isValidUTF8

theorem octets_of_of_text_of {octets : List UInt8} {text : String}
    (read : textOf? octets = some text) : octetsOf text = octets := by
  rw [textOf?, String.fromUTF8?] at read
  split at read
  · cases read
    rfl
  · cases read

def decodeText (octets : List UInt8) : Except OctetFault String :=
  match textOf? octets with
  | some text => .ok text
  | none => .error ((faultFrom 0 [] 0 octets).getD (.invalid 1 0))

end TagPolicy.Text
