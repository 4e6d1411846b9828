import TagPolicy.Text.Octets

/-!
Text for terminals, and the plain text that is left of it where nothing obeys control sequences:
`plain` leaves out the sequences and the control characters, except those that space the text. A
sequence begins with the escape character. A short one ends with the next character or after
some marks, a control sequence with its first letter or other mark past the digits, and a string
runs on to its own end. An escape character begins a new sequence wherever it stands, and two other
control characters end every sequence. Spacing in a sequence that is no string interrupts it: the
spacing is shown, and so is what comes after it, up to the next control character, with which the
sequence goes on, or up to a character past ASCII, which ends it. Text that has no control
characters is its own plain text (`plain_eq_self`).
-/

namespace TagPolicy.Text

inductive TerminalState
  | shown
  /-- A sequence of which only the escape character is read. -/
  | escape
  /-- A short sequence with a mark in it, before its last character. -/
  | marked
  /-- A control sequence. -/
  | control
  /-- A string for a device, before the numbers that it may begin with. -/
  | device
  /-- A string for a device, in its numbers. -/
  | deviceNumbers
  /-- A string for a device, in the marks before its name. -/
  | deviceMarks
  /-- A string for the system, which the bell ends. -/
  | systemString
  /-- A string that the octet 9C ends, even inside a character. -/
  | otherString
deriving DecidableEq, Repr

/-- Whether a control character spaces the text: a tab, a line feed, a form feed or a carriage
return. -/
def isSpacing (char : Char) : Bool :=
  char = '\t' || char = '\n' || char = '\x0c' || char = '\r'

def isShown (char : Char) : Bool :=
  isSpacing char || (0x20 ≤ char.toNat && char.toNat ≠ 0x7F)

def isWithin (low high : Nat) (char : Char) : Bool := low ≤ char.toNat && char.toNat ≤ high

namespace TerminalState

def afterEscape (char : Char) : TerminalState :=
  if char = '[' then control
  else if char = ']' then systemString
  else if char = 'P' then device
  else if char = 'X' ∨ char = '^' ∨ char = '_' then otherString
  else if isWithin 0x20 0x2F char then marked
  else if isWithin 0x30 0x7E char then shown
  else escape

def inside : TerminalState → Char → TerminalState
  | shown, _ => shown
  | escape, char => afterEscape char
  | marked, char => if isWithin 0x30 0x7E char then shown else marked
  | control, char => if isWithin 0x40 0x7E char then shown else control
  | device, char =>
      if isWithin 0x20 0x2F char then deviceMarks
      else if isWithin 0x30 0x3F char then deviceNumbers
      else if isWithin 0x40 0x7E char then otherString
      else device
  | deviceNumbers, char =>
      if isWithin 0x20 0x2F char then deviceMarks
      else if isWithin 0x3C 0x7E char then otherString
      else deviceNumbers
  | deviceMarks, char => if isWithin 0x30 0x7E char then otherString else deviceMarks
  | systemString, char => if char = '\x07' then shown else systemString
  | otherString, char =>
      if 0x9C ∈ octetsOf (String.singleton char) then shown else otherString

def isInterrupted : TerminalState → Bool
  | escape => true
  | marked => true
  | control => true
  | _ => false

end TerminalState

/-- A reader of a terminal's text: its state, and whether spacing has interrupted the sequence. -/
structure TerminalReader where
  state : TerminalState
  pausing : Bool
deriving DecidableEq, Repr

namespace TerminalReader

def start : TerminalReader := ⟨.shown, false⟩

def step (reader : TerminalReader) (char : Char) : TerminalReader × Bool :=
  if char = '\x1b' then (⟨.escape, false⟩, false)
  else if char = '\x18' ∨ char = '\x1a' then (start, false)
  else if reader.state = .shown ∨ reader.pausing then
    if isShown char then (if char.toNat < 0x80 then reader else start, true)
    else (⟨reader.state, false⟩, false)
  else if reader.state.isInterrupted ∧ isSpacing char then (⟨reader.state, true⟩, true)
  else (⟨reader.state.inside char, false⟩, false)

def run (reader : TerminalReader) : List Char → List Char
  | [] => []
  | char :: rest =>
      let (next, visible) := reader.step char
      if visible then char :: next.run rest else next.run rest

end TerminalReader

def plain (text : String) : String := String.ofList (TerminalReader.start.run text.toList)

def bold (text : String) : String := "\x1b[1m" ++ text ++ "\x1b[0m"

theorem step_start_of_is_shown {char : Char} (visible : isShown char = true) :
    TerminalReader.start.step char = (.start, true) := by
  have outside : char ≠ '\x1b' ∧ char ≠ '\x18' ∧ char ≠ '\x1a' := by
    refine ⟨?_, ?_, ?_⟩ <;> rintro rfl <;> revert visible <;> decide
  simp [TerminalReader.step, TerminalReader.start, outside, visible]

theorem run_start_eq_self {chars : List Char} (visible : ∀ char ∈ chars, isShown char = true) :
    TerminalReader.start.run chars = chars := by
  induction chars with
  | nil => rfl
  | cons char rest induction =>
      rw [TerminalReader.run, step_start_of_is_shown (visible char List.mem_cons_self)]
      simp [induction fun other member => visible other (List.mem_cons_of_mem char member)]

/-- Text without control characters is its own plain text. -/
theorem plain_eq_self {text : String} (visible : ∀ char ∈ text.toList, isShown char = true) :
    plain text = text := by
  simp [plain, run_start_eq_self visible]

end TagPolicy.Text
