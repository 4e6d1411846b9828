import TagPolicy.Ordered.Map
import TagPolicy.Store.Access

/-!
A store of named slots held in memory, with switches for its failures. A slot holds what was last
written into it; octets that came from elsewhere are read as text if they are one. Reading changes
nothing, and a write that fails changes nothing.
-/

namespace TagPolicy

inductive SlotContent
  | text (content : String)
  | octets (content : List UInt8)
deriving DecidableEq, Repr

structure Slots where
  contents : OrderedMap String SlotContent
  /-- Whether the store answers at all. -/
  available : Bool
  unreadable : List String
  unwritable : List String
  /-- The slots that can only be emptied. -/
  unfillable : List String
deriving DecidableEq

namespace Slots

def empty : Slots := ⟨.empty, true, [], [], []⟩

instance : Inhabited Slots := ⟨empty⟩

def textOf (slot : String) : SlotContent → Except StorageFault String
  | .text content => .ok content
  | .octets content =>
      match Text.decodeText content with
      | .ok text => .ok text
      | .error fault => .error (.notText slot fault)

def get (slots : Slots) (slot : String) : Except StorageFault (Option String) :=
  if slot ∈ slots.unreadable then .error (.unreadable slot)
  else if slots.available = false then .error .switchedOff
  else
    match slots.contents.get? slot with
    | none => .ok none
    | some content => (textOf slot content).map some

def writeFault (slots : Slots) (slot text : String) : Option StorageFault :=
  if slot ∈ slots.unwritable ∨ (slot ∈ slots.unfillable ∧ text ≠ "") then some (.unwritable slot)
  else if slots.available = false then some .switchedOff
  else none

/-- The store with content put into a slot, whatever its failures. -/
def put (slots : Slots) (slot : String) (content : SlotContent) : Slots :=
  { slots with contents := slots.contents.insert slot content }

def set (slots : Slots) (slot text : String) : Except StorageFault Unit × Slots :=
  match slots.writeFault slot text with
  | some fault => (.error fault, slots)
  | none => (.ok (), slots.put slot (.text text))

end Slots

def Access.run {α : Type} (slots : Slots) : Access α → α × Slots
  | .done result => (result, slots)
  | .get slot next => (next (slots.get slot)).run slots
  | .set slot text next =>
      let (outcome, slots) := slots.set slot text
      (next outcome).run slots

end TagPolicy
