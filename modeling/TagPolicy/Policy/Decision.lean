import TagPolicy.Policy.Evaluation

/-!
Decisions on requests. The first rule that holds decides, and a request that no rule decides is
denied.
-/

namespace TagPolicy

inductive Reason
  /-- A rule held; its line and its condition as rules write it. -/
  | ruleMatch (line : UInt32) (condition : String)
  | noMatch
deriving DecidableEq, Repr

def Reason.defaultText : String := "no rule matched"

structure Decision where
  effect : Effect
  /-- The position of the rule that decided, from one. -/
  rule : Option UInt32
  reason : Reason
deriving DecidableEq, Repr

def Decision.isAllowed (decision : Decision) : Bool := decision.effect == .allow

theorem Decision.is_allowed_iff (decision : Decision) :
    decision.isAllowed = true ↔ decision.effect = .allow :=
  beq_iff_eq

def Decision.default : Decision := ⟨.deny, none, .noMatch⟩

def Table.decisionOf (table : Table) (rule : Rule) : Decision :=
  ⟨rule.effect, some rule.order, .ruleMatch rule.line (table.describe rule.condition)⟩

def Table.decide (table : Table) (facts : Facts) : Decision :=
  match table.firstMatch facts with
  | some rule => table.decisionOf rule
  | none => .default

section

variable {table : Table} {facts : Facts}

theorem Table.decide_of_some {rule : Rule} (found : table.firstMatch facts = some rule) :
    table.decide facts = table.decisionOf rule := by
  rw [decide, found]

theorem Table.decide_of_none (nothing : table.firstMatch facts = none) :
    table.decide facts = .default := by
  rw [decide, nothing]

end

end TagPolicy
