/-!
The BLAKE3 hash of octets, in 32 octets. The input is cut into chunks of 1024 octets, every chunk is
compressed block by block, and the chunks are joined two by two in a tree whose left sides are as
large a power of two as there is room for.
-/

namespace TagPolicy.Digest

/-- Eight words that a compression starts from or ends with. -/
abbrev Chaining := Vector UInt32 8

/-- Sixteen words of a message or of the compression's state. -/
abbrev Block := Vector UInt32 16

def initial : Chaining :=
  #v[0x6A09E667, 0xBB67AE85, 0x3C6EF372, 0xA54FF53A, 0x510E527F, 0x9B05688C, 0x1F83D9AB, 0x5BE0CD19]

/-- Where each word of a message comes from in the message of the round before. -/
def schedule : Vector (Fin 16) 16 := #v[2, 6, 3, 10, 7, 0, 4, 13, 1, 11, 12, 5, 9, 14, 15, 8]

def chunkStart : UInt32 := 1

def chunkEnd : UInt32 := 2

def parent : UInt32 := 4

def root : UInt32 := 8

def rotateRight (word bits : UInt32) : UInt32 := (word >>> bits) ||| (word <<< (32 - bits))

def mix (state : Block) (a b c d : Fin 16) (x y : UInt32) : Block :=
  let state := state.set a (state[a] + state[b] + x)
  let state := state.set d (rotateRight (state[d] ^^^ state[a]) 16)
  let state := state.set c (state[c] + state[d])
  let state := state.set b (rotateRight (state[b] ^^^ state[c]) 12)
  let state := state.set a (state[a] + state[b] + y)
  let state := state.set d (rotateRight (state[d] ^^^ state[a]) 8)
  let state := state.set c (state[c] + state[d])
  state.set b (rotateRight (state[b] ^^^ state[c]) 7)

def round (state message : Block) : Block :=
  let state := mix state 0 4 8 12 message[0] message[1]
  let state := mix state 1 5 9 13 message[2] message[3]
  let state := mix state 2 6 10 14 message[4] message[5]
  let state := mix state 3 7 11 15 message[6] message[7]
  let state := mix state 0 5 10 15 message[8] message[9]
  let state := mix state 1 6 11 12 message[10] message[11]
  let state := mix state 2 7 8 13 message[12] message[13]
  mix state 3 4 9 14 message[14] message[15]

def permuted (message : Block) : Block := schedule.map fun position => message[position]

def rounds : Nat → Block → Block → Block
  | 0, state, _ => state
  | count + 1, state, message => rounds count (round state message) (permuted message)

/-- A compression that is set up but not run, since its marks depend on whether it is the root. -/
structure Node where
  chaining : Chaining
  message : Block
  counter : UInt64
  length : UInt32
  flags : UInt32

def Node.compress (node : Node) (flags : UInt32) : Chaining :=
  let start : Block := #v[node.chaining[0], node.chaining[1], node.chaining[2], node.chaining[3],
    node.chaining[4], node.chaining[5], node.chaining[6], node.chaining[7],
    initial[0], initial[1], initial[2], initial[3],
    node.counter.toUInt32, (node.counter >>> 32).toUInt32, node.length, flags]
  let state := rounds 7 start node.message
  #v[state[0] ^^^ state[8], state[1] ^^^ state[9], state[2] ^^^ state[10], state[3] ^^^ state[11],
    state[4] ^^^ state[12], state[5] ^^^ state[13], state[6] ^^^ state[14], state[7] ^^^ state[15]]

def Node.output (node : Node) : Chaining := node.compress node.flags

/-- The word of four octets, the lowest first. -/
def wordAt (octets : List UInt8) (index : Nat) : UInt32 :=
  let octet (position : Nat) : UInt32 := (octets.getD (4 * index + position) 0).toUInt32
  octet 0 ||| (octet 1 <<< 8) ||| (octet 2 <<< 16) ||| (octet 3 <<< 24)

/-- The words of at most 64 octets, filled up with zeros. -/
def blockOf (octets : List UInt8) : Block := Vector.ofFn fun index => wordAt octets index.val

def octetsOfWord (word : UInt32) : List UInt8 :=
  [word.toUInt8, (word >>> 8).toUInt8, (word >>> 16).toUInt8, (word >>> 24).toUInt8]

/-- A list cut into pieces of a size, of which the last may be shorter; an empty list is one. -/
def pieces (size : Nat) (octets : List UInt8) : List (List UInt8) :=
  if _more : 0 < size ∧ octets.drop size ≠ [] then
    octets.take size :: pieces size (octets.drop size)
  else [octets]
termination_by octets.length
decreasing_by
  have rest := List.length_pos_iff.mpr _more.2
  simp only [List.length_drop] at rest ⊢
  omega

def chunkNode (counter : UInt64) (chaining : Chaining) (mark : UInt32) :
    List (List UInt8) → Node
  | [] => ⟨chaining, blockOf [], counter, 0, mark ||| chunkEnd⟩
  | [last] => ⟨chaining, blockOf last, counter, UInt32.ofNat last.length, mark ||| chunkEnd⟩
  | block :: rest =>
      let node : Node := ⟨chaining, blockOf block, counter, UInt32.ofNat block.length, mark⟩
      chunkNode counter node.output 0 rest

def joined (left right : Chaining) : Node :=
  ⟨initial, left ++ right, 0, 64, parent⟩

/-- The greatest power of two, from `power` on, that is below a number. -/
def powerBelow (number : Nat) : Nat → Nat → Nat
  | 0, power => power
  | steps + 1, power => if 2 * power < number then powerBelow number steps (2 * power) else power

theorem power_below_lt {number steps power : Nat} (below : power < number) :
    powerBelow number steps power < number := by
  induction steps generalizing power with
  | zero => exact below
  | succ steps induction =>
      unfold powerBelow
      split
      · exact induction ‹_›
      · exact below

theorem power_below_pos {number steps power : Nat} (positive : 0 < power) :
    0 < powerBelow number steps power := by
  induction steps generalizing power with
  | zero => exact positive
  | succ steps induction =>
      unfold powerBelow
      split
      · exact induction (by omega)
      · exact positive

def treeNode (counter : Nat) (chunks : List (List UInt8)) : Node :=
  if _several : 1 < chunks.length then
    let left := powerBelow chunks.length chunks.length 1
    joined (treeNode counter (chunks.take left)).output
      (treeNode (counter + left) (chunks.drop left)).output
  else
    chunkNode (UInt64.ofNat counter) initial chunkStart (pieces 64 (chunks.headD []))
termination_by chunks.length
decreasing_by
  · have := @power_below_lt chunks.length chunks.length 1 _several
    simp only [List.length_take]
    omega
  · have := @power_below_pos chunks.length chunks.length 1 Nat.one_pos
    simp only [List.length_drop]
    omega

def hash (octets : List UInt8) : List UInt8 :=
  let node := treeNode 0 (pieces 1024 octets)
  (node.compress (node.flags ||| root)).toList.flatMap octetsOfWord

end TagPolicy.Digest
