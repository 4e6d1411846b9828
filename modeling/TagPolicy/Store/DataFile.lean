import TagPolicy.Cache.Layout
import TagPolicy.Ordered.Map

/-!
The data file of a store on a disk: a mark, and then the slots that were ever written, each with its
name and its text, in the layout of `TagPolicy.Layout`. The mark is an octet that occurs in no text,
so no data file is read as a text and no text as a data file. Octets that are no data file hold no
slots.
-/

namespace TagPolicy

structure DataFile where
  slots : OrderedMap String String

namespace DataFile

def empty : DataFile := ⟨.empty⟩

def mark : UInt8 := 0xFF

/-- The form of data files, as it is noted beside them: the mark and the number of the form. -/
def form : List UInt8 := [mark, 1]

def writeSlot (slot : String × String) : List UInt8 :=
  Layout.writeText slot.1 ++ Layout.writeText slot.2

def readSlot (octets : List UInt8) : Except Layout.ReadFault ((String × String) × List UInt8) := do
  let (name, rest) ← Layout.readText octets
  let (text, rest) ← Layout.readText rest
  pure ((name, text), rest)

def toOctets (file : DataFile) : List UInt8 :=
  mark :: Layout.writeList writeSlot file.slots.entries

def ofOctets : List UInt8 → DataFile
  | [] => empty
  | first :: rest =>
      match Layout.readWhole (Layout.readList readSlot) rest with
      | .error _ => empty
      | .ok slots =>
          if first = mark then ⟨.ofList slots⟩ else empty

def get? (file : DataFile) (slot : String) : Option String := file.slots.get? slot

def set (file : DataFile) (slot text : String) : DataFile := ⟨file.slots.insert slot text⟩

/-- A write is seen at its own slot and nowhere else. -/
@[simp] theorem get?_set {file : DataFile} {slot other text : String} :
    (file.set slot text).get? other = if other = slot then some text else file.get? other :=
  OrderedMap.get?_insert

end DataFile

end TagPolicy
