/-!
Configuration documents in TOML as data: a document is a list of keys and their values.
-/

namespace TagPolicy

/-- A value of a document. Numbers with a fraction and moments in time are told apart from the other
values, and what they say is not kept: nothing in this library has such values. -/
inductive Toml
  | text (content : String)
  | integer (number : Int)
  | boolean (flag : Bool)
  /-- A number with a fraction or an exponent, an infinity or no number. -/
  | float
  /-- A date, a time of day or both. -/
  | moment
  | array (items : List Toml)
  | table (entries : List (String × Toml))
deriving Repr

namespace Toml

def find (key : String) : List (String × Toml) → Option Toml
  | [] => none
  | (name, value) :: rest => if name = key then some value else find key rest

end Toml

end TagPolicy
