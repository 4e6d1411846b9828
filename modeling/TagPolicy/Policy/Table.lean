import TagPolicy.Policy.Condition

/-!
Tables of compiled rules. A table holds named predicates, which later predicates and rules refer to
by position, and rules in the order they are tried. In a sound table predicates refer only to
earlier ones and rules only to existing ones; `firstBadReference` finds the first breach of that.
-/

namespace TagPolicy

structure Predicate where
  name : String
  condition : Condition
deriving DecidableEq, Repr

structure Rule where
  condition : Condition
  effect : Effect
  /-- The position among the rules of the text, from one. -/
  order : UInt32
  /-- The line of the text the rule begins on. -/
  line : UInt32
deriving DecidableEq, Repr

structure Table where
  /-- The version of the store that the rule text was written for. -/
  schemaVersion : String
  predicates : List Predicate
  rules : List Rule
deriving DecidableEq, Repr

inductive BadReference
  | byPredicate (name : String) (index : UInt32)
  | byRule (order : UInt32) (index : UInt32)
deriving DecidableEq, Repr

def BadReference.message : BadReference → String
  | .byPredicate name index =>
      s!"predicate [{name}]: predicate reference #{index.toNat} out of range"
  | .byRule order index =>
      s!"rule #{order.toNat}: predicate reference #{index.toNat} out of range"

def Condition.firstReferencePast (bound : Nat) (condition : Condition) : Option UInt32 :=
  condition.references.find? fun index => bound ≤ index.toNat

/-- The first predicate that refers to itself or to a later one, where `bound` predicates stand
before the list. -/
def firstForwardReference (bound : Nat) : List Predicate → Option BadReference
  | [] => none
  | predicate :: rest =>
      match predicate.condition.firstReferencePast bound with
      | some index => some (.byPredicate predicate.name index)
      | none => firstForwardReference (bound + 1) rest

def firstDanglingReference (bound : Nat) : List Rule → Option BadReference
  | [] => none
  | rule :: rest =>
      match rule.condition.firstReferencePast bound with
      | some index => some (.byRule rule.order index)
      | none => firstDanglingReference bound rest

namespace Table

def empty : Table := ⟨"", [], []⟩

instance : Inhabited Table := ⟨empty⟩

def size (table : Table) : Nat := table.rules.length

def isEmpty (table : Table) : Bool := table.rules.isEmpty

def predicateNames (table : Table) : List String := table.predicates.map Predicate.name

def describe (table : Table) (condition : Condition) : String :=
  condition.render table.predicateNames

def firstBadReference (table : Table) : Option BadReference :=
  match firstForwardReference 0 table.predicates with
  | some bad => some bad
  | none => firstDanglingReference table.predicates.length table.rules

end Table

end TagPolicy
