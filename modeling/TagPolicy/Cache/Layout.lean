import TagPolicy.Policy.Operations
import TagPolicy.Policy.Table
import TagPolicy.Text.Octets

/-!
The layout of tables as octets. Numbers have one octet when they are small and a mark with two,
four or eight octets, the lowest first, when they are larger; integers with a sign are folded onto
the naturals first. A list is its length and its items, a choice is the number of the alternative
and its fields. Every `write` has a `read` that takes what it wrote off the front of the octets; a
`read` also accepts numbers written longer than needed.
-/

namespace TagPolicy.Layout

inductive ReadFault
  /-- They end too early, or hold a number that stands for nothing. -/
  | malformed
  /-- They hold operations that build no condition. -/
  | operations (fault : OperationFault)
deriving DecidableEq, Repr

/-- Takes an item off the front of octets and leaves the octets after it. -/
abbrev Read (α : Type) := List UInt8 → Except ReadFault (α × List UInt8)

def littleEndian : Nat → Nat → List UInt8
  | 0, _ => []
  | count + 1, number => UInt8.ofNat number :: littleEndian count (number / 256)

def readLittleEndian : Nat → Read Nat
  | 0, octets => .ok (0, octets)
  | _ + 1, [] => .error .malformed
  | count + 1, octet :: rest => do
      let (higher, rest) ← readLittleEndian count rest
      pure (octet.toNat + 256 * higher, rest)

/-- A number below two to the sixty-fourth. -/
def writeNat (number : Nat) : List UInt8 :=
  if number < 251 then [UInt8.ofNat number]
  else if number < UInt16.size then 0xFB :: littleEndian 2 number
  else if number < UInt32.size then 0xFC :: littleEndian 4 number
  else 0xFD :: littleEndian 8 number

def readAnyNat : Read Nat
  | [] => .error .malformed
  | first :: rest =>
      if first < 251 then .ok (first.toNat, rest)
      else if first = 0xFB then readLittleEndian 2 rest
      else if first = 0xFC then readLittleEndian 4 rest
      else if first = 0xFD then readLittleEndian 8 rest
      else .error .malformed

def readNat (bound : Nat) (octets : List UInt8) : Except ReadFault (Nat × List UInt8) := do
  let (number, rest) ← readAnyNat octets
  if number < bound then pure (number, rest) else .error .malformed

def readLength : Read Nat := readNat UInt64.size

def writeUInt32 (word : UInt32) : List UInt8 := writeNat word.toNat

def readUInt32 (octets : List UInt8) : Except ReadFault (UInt32 × List UInt8) := do
  let (number, rest) ← readNat UInt32.size octets
  pure (UInt32.ofNat number, rest)

/-- An integer folded onto the naturals: 0, -1, 1, -2, 2 and so on. -/
def folded : Int → Nat
  | .ofNat number => 2 * number
  | .negSucc number => 2 * number + 1

def unfolded (number : Nat) : Int :=
  if number % 2 = 0 then .ofNat (number / 2) else .negSucc (number / 2)

def writeInt64 (number : Int64) : List UInt8 := writeNat (folded number.toInt)

def readInt64 (octets : List UInt8) : Except ReadFault (Int64 × List UInt8) := do
  let (number, rest) ← readNat UInt64.size octets
  pure (Int64.ofInt (unfolded number), rest)

def writeBool (flag : Bool) : List UInt8 := [if flag then 1 else 0]

def readBool : Read Bool
  | 0 :: rest => .ok (false, rest)
  | 1 :: rest => .ok (true, rest)
  | _ => .error .malformed

def readOctets (count : Nat) (octets : List UInt8) : Except ReadFault (List UInt8 × List UInt8) :=
  let front := octets.take count
  if front.length = count then .ok (front, octets.drop count) else .error .malformed

def writeText (text : String) : List UInt8 :=
  let octets := Text.octetsOf text
  writeNat octets.length ++ octets

def readText (octets : List UInt8) : Except ReadFault (String × List UInt8) := do
  let (length, rest) ← readLength octets
  let (content, rest) ← readOctets length rest
  match Text.textOf? content with
  | some text => pure (text, rest)
  | none => .error .malformed

def writeItems {α : Type} (write : α → List UInt8) (items : List α) : List UInt8 :=
  items.flatMap write

def readItems {α : Type} (read : Read α) : Nat → Read (List α)
  | 0, octets => .ok ([], octets)
  | count + 1, octets => do
      let (item, rest) ← read octets
      let (items, rest) ← readItems read count rest
      pure (item :: items, rest)

def writeList {α : Type} (write : α → List UInt8) (items : List α) : List UInt8 :=
  writeNat items.length ++ writeItems write items

def readList {α : Type} (read : Read α) (octets : List UInt8) :
    Except ReadFault (List α × List UInt8) := do
  let (length, rest) ← readLength octets
  readItems read length rest

def writeValue : Value → List UInt8
  | .text content => writeNat 0 ++ writeText content
  | .integer number => writeNat 1 ++ writeInt64 number
  | .boolean flag => writeNat 2 ++ writeBool flag

def readValue (octets : List UInt8) : Except ReadFault (Value × List UInt8) := do
  match ← readNat UInt32.size octets with
  | (0, rest) => do
      let (content, rest) ← readText rest
      pure (.text content, rest)
  | (1, rest) => do
      let (number, rest) ← readInt64 rest
      pure (.integer number, rest)
  | (2, rest) => do
      let (flag, rest) ← readBool rest
      pure (.boolean flag, rest)
  | _ => .error .malformed

def writeComparison : Comparison → List UInt8
  | .equal => writeNat 0
  | .unequal => writeNat 1

def readComparison (octets : List UInt8) : Except ReadFault (Comparison × List UInt8) := do
  match ← readNat UInt32.size octets with
  | (0, rest) => pure (.equal, rest)
  | (1, rest) => pure (.unequal, rest)
  | _ => .error .malformed

def writeEffect : Effect → List UInt8
  | .allow => writeNat 0
  | .deny => writeNat 1

def readEffect (octets : List UInt8) : Except ReadFault (Effect × List UInt8) := do
  match ← readNat UInt32.size octets with
  | (0, rest) => pure (.allow, rest)
  | (1, rest) => pure (.deny, rest)
  | _ => .error .malformed

def writeOperation : Operation → List UInt8
  | .all count => writeNat 0 ++ writeUInt32 count
  | .any count => writeNat 1 ++ writeUInt32 count
  | .not => writeNat 2
  | .tag name => writeNat 3 ++ writeText name
  | .attr name comparison value =>
      writeNat 4 ++ (writeText name ++ (writeComparison comparison ++ writeValue value))
  | .const value => writeNat 5 ++ writeBool value
  | .predicate index => writeNat 6 ++ writeUInt32 index

def readOperation (octets : List UInt8) : Except ReadFault (Operation × List UInt8) := do
  match ← readNat UInt32.size octets with
  | (0, rest) => do
      let (count, rest) ← readUInt32 rest
      pure (.all count, rest)
  | (1, rest) => do
      let (count, rest) ← readUInt32 rest
      pure (.any count, rest)
  | (2, rest) => pure (.not, rest)
  | (3, rest) => do
      let (name, rest) ← readText rest
      pure (.tag name, rest)
  | (4, rest) => do
      let (name, rest) ← readText rest
      let (comparison, rest) ← readComparison rest
      let (value, rest) ← readValue rest
      pure (.attr name comparison value, rest)
  | (5, rest) => do
      let (value, rest) ← readBool rest
      pure (.const value, rest)
  | (6, rest) => do
      let (index, rest) ← readUInt32 rest
      pure (.predicate index, rest)
  | _ => .error .malformed

def writeCondition (condition : Condition) : List UInt8 :=
  writeList writeOperation condition.operations

/-- A condition; operations that build none are refused before anything after them is read. -/
def readCondition (octets : List UInt8) : Except ReadFault (Condition × List UInt8) := do
  let (operations, rest) ← readList readOperation octets
  match Condition.ofOperations operations with
  | .ok condition => pure (condition, rest)
  | .error fault => .error (.operations fault)

def writePredicate (predicate : Predicate) : List UInt8 :=
  writeText predicate.name ++ writeCondition predicate.condition

def readPredicate (octets : List UInt8) : Except ReadFault (Predicate × List UInt8) := do
  let (name, rest) ← readText octets
  let (condition, rest) ← readCondition rest
  pure (⟨name, condition⟩, rest)

def writeRule (rule : Rule) : List UInt8 :=
  writeCondition rule.condition ++
    (writeEffect rule.effect ++ (writeUInt32 rule.order ++ writeUInt32 rule.line))

def readRule (octets : List UInt8) : Except ReadFault (Rule × List UInt8) := do
  let (condition, rest) ← readCondition octets
  let (effect, rest) ← readEffect rest
  let (order, rest) ← readUInt32 rest
  let (line, rest) ← readUInt32 rest
  pure (⟨condition, effect, order, line⟩, rest)

def writeTable (table : Table) : List UInt8 :=
  writeText table.schemaVersion ++
    (writeList writePredicate table.predicates ++ writeList writeRule table.rules)

def readTable (octets : List UInt8) : Except ReadFault (Table × List UInt8) := do
  let (schemaVersion, rest) ← readText octets
  let (predicates, rest) ← readList readPredicate rest
  let (rules, rest) ← readList readRule rest
  pure (⟨schemaVersion, predicates, rules⟩, rest)

def readWhole {α : Type} (read : Read α) (octets : List UInt8) : Except ReadFault α := do
  match ← read octets with
  | (item, []) => pure item
  | _ => .error .malformed

end TagPolicy.Layout
