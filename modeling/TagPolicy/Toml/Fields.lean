import TagPolicy.Toml.Basic

/-!
Typed fields of documents. A record is a table with its fields by name; an array stands for a record
too, with the fields in their order. Keys that a record does not have are ignored.
-/

namespace TagPolicy.Toml

/-- A record's field, by its name and its place among the fields, if the value is a record. A moment
is a record whose one field has a name of its own, which no field here has. -/
def field? (name : String) (place : Nat) : Toml → Option (Option Toml)
  | table entries => some (find name entries)
  | array items => some items[place]?
  | moment => some none
  | _ => none

def required {α : Type} (decode : Toml → Option α) (name : String) (place : Nat) (value : Toml) :
    Option α :=
  (field? name place value).bind fun found => found.bind decode

def optional {α : Type} (decode : Toml → Option α) (default : α) (name : String) (place : Nat)
    (value : Toml) : Option α :=
  (field? name place value).bind fun found =>
    match found with
    | none => some default
    | some value => decode value

def asText : Toml → Option String
  | text content => some content
  | _ => none

def asUInt32 : Toml → Option UInt32
  | integer number =>
      if 0 ≤ number ∧ number < UInt32.size then some (UInt32.ofNat number.toNat) else none
  | _ => none

def asList {α : Type} (decode : Toml → Option α) : Toml → Option (List α)
  | array items => items.mapM decode
  | _ => none

end TagPolicy.Toml
