import TagPolicy.Policy.Decision
import TagPolicy.Policy.Operations

/-!
Values in JSON, their text over several lines, and the form in which tables and decisions are shown.
-/

namespace TagPolicy

/-- A JSON value; the members of an object keep their order. -/
inductive JsonValue
  | null
  | boolean (flag : Bool)
  | number (value : Int)
  | text (content : String)
  | array (items : List JsonValue)
  | object (members : List (String × JsonValue))

namespace JsonValue

def hexDigit (value : Nat) : Char := "0123456789abcdef".toList.getD value '0'

def escaped (char : Char) : List Char :=
  if char = '"' then ['\\', '"']
  else if char = '\\' then ['\\', '\\']
  else if char = '\n' then ['\\', 'n']
  else if char = '\r' then ['\\', 'r']
  else if char = '\t' then ['\\', 't']
  else if char = '\x08' then ['\\', 'b']
  else if char = '\x0c' then ['\\', 'f']
  else if char.toNat < 0x20 then
    ['\\', 'u', '0', '0', hexDigit (char.toNat / 16), hexDigit (char.toNat % 16)]
  else [char]

def quoted (content : String) : String :=
  String.ofList ('"' :: content.toList.flatMap escaped ++ ['"'])

def indent (depth : Nat) : String := String.ofList (List.replicate (2 * depth) ' ')

def enclosed (opening closing : String) (depth : Nat) (lines : List String) : String :=
  match lines with
  | [] => opening ++ closing
  | lines =>
      opening ++ "\n" ++ ",\n".intercalate (lines.map (indent (depth + 1) ++ ·)) ++ "\n" ++
        indent depth ++ closing

mutual

/-- The text of a value whose first line begins elsewhere and whose other lines are at a depth. -/
def prettyAt (depth : Nat) : JsonValue → String
  | null => "null"
  | boolean true => "true"
  | boolean false => "false"
  | number value => toString value
  | text content => quoted content
  | array items => enclosed "[" "]" depth (prettyItems (depth + 1) items)
  | object members => enclosed "\x7b" "\x7d" depth (prettyMembers (depth + 1) members)

def prettyItems (depth : Nat) : List JsonValue → List String
  | [] => []
  | item :: items => item.prettyAt depth :: prettyItems depth items

def prettyMembers (depth : Nat) : List (String × JsonValue) → List String
  | [] => []
  | (key, value) :: members =>
      (quoted key ++ ": " ++ value.prettyAt depth) :: prettyMembers depth members

end

def pretty (value : JsonValue) : String := value.prettyAt 0

def ofNat (value : Nat) : JsonValue := number value

def ofOption {α : Type} (form : α → JsonValue) : Option α → JsonValue
  | none => null
  | some value => form value

end JsonValue

def Value.toJson : Value → JsonValue
  | text content => .object [("Str", .text content)]
  | integer number => .object [("Int", .number number.toInt)]
  | boolean flag => .object [("Bool", .boolean flag)]

def Comparison.name : Comparison → String
  | equal => "Eq"
  | unequal => "Ne"

def Operation.toJson : Operation → JsonValue
  | all count => .object [("All", .ofNat count.toNat)]
  | any count => .object [("Any", .ofNat count.toNat)]
  | not => .text "Not"
  | tag name => .object [("Tag", .text name)]
  | attr name comparison value =>
      .object [("Attribute", .object
        [("name", .text name), ("op", .text comparison.name), ("value", value.toJson)])]
  | const value => .object [("Const", .boolean value)]
  | predicate index => .object [("Predicate", .ofNat index.toNat)]

def Condition.toJson (condition : Condition) : JsonValue :=
  .array (condition.operations.map Operation.toJson)

def Predicate.toJson (predicate : Predicate) : JsonValue :=
  .object [("name", .text predicate.name), ("condition", predicate.condition.toJson)]

def Rule.toJson (rule : Rule) : JsonValue :=
  .object
    [("condition", rule.condition.toJson), ("decision", .text rule.effect.render),
      ("declaration_order", .ofNat rule.order.toNat), ("line", .ofNat rule.line.toNat)]

def Table.toJson (table : Table) : JsonValue :=
  .object
    [("schema_version", .text table.schemaVersion),
      ("predicates", .array (table.predicates.map Predicate.toJson)),
      ("entries", .array (table.rules.map Rule.toJson))]

def Reason.toJson : Reason → JsonValue
  | ruleMatch line condition =>
      .object
        [("type", .text "RuleMatch"), ("line", .ofNat line.toNat), ("condition", .text condition)]
  | noMatch => .object [("type", .text "DefaultDecision"), ("reason", .text Reason.defaultText)]

def Decision.toJson (decision : Decision) : JsonValue :=
  .object
    [("effect", .text decision.effect.render),
      ("matched_rule", .ofOption (fun order => .ofNat order.toNat) decision.rule),
      ("reason", decision.reason.toJson)]

end TagPolicy
