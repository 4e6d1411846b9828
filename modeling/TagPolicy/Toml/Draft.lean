import TagPolicy.Toml.Basic

/-!
Documents that are being built. A table is made by a header of its own, on the way of the header of
another table, or on the way of a dotted key. A header opens a table that is new or that was only
passed by headers; a dotted key gives its value to a new table or to one that dotted keys have made.
A key is given once. An array of tables gets one more table with every header.
-/

namespace TagPolicy.Toml

inductive Origin
  /-- A header has opened it. -/
  | opened
  /-- It was made on the way of a header to another table. -/
  | passed
  /-- It was made on the way of a dotted key. -/
  | dotted
deriving DecidableEq, Repr

inductive Part
  /-- A value, which nothing can be added to. -/
  | closed (value : Toml)
  | table (origin : Origin) (entries : List (String × Part))
  /-- An array of tables: those before the last, the latest first, and the last, which is being
  filled. -/
  | tables (earlier : List Toml) (last : List (String × Part))

abbrev Entries := List (String × Part)

mutual

def Part.value : Part → Toml
  | .closed value => value
  | .table _ entries => .table (Part.values entries)
  | .tables earlier last => .array (earlier.reverse ++ [.table (Part.values last)])

def Part.values : List (String × Part) → List (String × Toml)
  | [] => []
  | (key, part) :: rest => (key, part.value) :: Part.values rest

end

namespace Entries

def find (key : String) : Entries → Option Part
  | [] => none
  | (name, part) :: rest => if name = key then some part else find key rest

/-- The entries with another part at a key; a new key comes last. -/
def put (key : String) (part : Part) : Entries → Entries
  | [] => [(key, part)]
  | (name, old) :: rest =>
      if name = key then (key, part) :: rest else (name, old) :: put key part rest

/-- The entries after a change of the table that the path of a header leads to. A table on the way
that is not there yet is made; the way through an array of tables leads to its last table. -/
def change (action : Entries → Option Entries) : List String → Entries → Option Entries
  | [], entries => action entries
  | key :: path, entries =>
      match entries.find key with
      | none => (change action path []).map fun inner => entries.put key (.table .passed inner)
      | some (.table origin inner) => (change action path inner).map fun inner =>
          entries.put key (.table origin inner)
      | some (.tables earlier last) => (change action path last).map fun last =>
          entries.put key (.tables earlier last)
      | some (.closed _) => none

/-- The entries with a value at the end of a dotted key, of which `key` is the first part. No table
is entered that a header has opened, and the table of the last part is one that dotted keys make. -/
def give (value : Toml) (key : String) : List String → Entries → Option Entries
  | [], entries =>
      match entries.find key with
      | none => some (entries.put key (.closed value))
      | some _ => none
  | next :: path, entries =>
      match entries.find key with
      | none => (give value next path []).map fun inner => entries.put key (.table .dotted inner)
      | some (.table .opened _) => none
      | some (.table origin inner) =>
          if path = [] ∧ origin ≠ .dotted then none
          else (give value next path inner).map fun inner => entries.put key (.table origin inner)
      | some (.tables earlier last) =>
          if path = [] then none
          else (give value next path last).map fun last => entries.put key (.tables earlier last)
      | some (.closed _) => none

def openTable (key : String) (entries : Entries) : Option Entries :=
  match entries.find key with
  | none => some (entries.put key (.table .opened []))
  | some (.table .passed inner) => some (entries.put key (.table .opened inner))
  | some _ => none

def openNext (key : String) (entries : Entries) : Option Entries :=
  match entries.find key with
  | none => some (entries.put key (.tables [] []))
  | some (.tables earlier last) =>
      some (entries.put key (.tables (.table (Part.values last) :: earlier) []))
  | some _ => none

end Entries

/-- A key: the first part and the parts after its dots. -/
abbrev Key := String × List String

def Key.parts (key : Key) : List String := key.1 :: key.2

/-- A document that is being built, and the path of the table that keys go into. -/
structure Draft where
  entries : Entries
  path : List String

namespace Draft

def empty : Draft := ⟨[], []⟩

def give (draft : Draft) (key : Key) (value : Toml) : Option Draft :=
  (draft.entries.change (Entries.give value key.1 key.2) draft.path).map fun entries =>
    ⟨entries, draft.path⟩

def openTable (draft : Draft) (key : Key) : Option Draft :=
  let path := key.parts
  (draft.entries.change (Entries.openTable (path.getLastD "")) path.dropLast).map fun entries =>
    ⟨entries, path⟩

def openNext (draft : Draft) (key : Key) : Option Draft :=
  let path := key.parts
  (draft.entries.change (Entries.openNext (path.getLastD "")) path.dropLast).map fun entries =>
    ⟨entries, path⟩

def values (draft : Draft) : List (String × Toml) := Part.values draft.entries

end Draft

end TagPolicy.Toml
