import Mathlib.Data.Bool.Basic
import Mathlib.Data.Option.NAry
import TagPolicy.Policy.Compilation
import TagPolicy.Policy.Evaluation

/-!
What folding does to the meaning of a condition: nothing. Conjunction, disjunction and negation of
conditions mean what their names say, whatever is flattened, dropped or unwrapped on the way. They
also refer to no predicate that their operands do not refer to, and only references matter for the
meaning that predicates contribute.

A conjunction becomes a disjunction when the truth values are exchanged, so what holds of one of the
two connectives is said of both at once.
-/

namespace TagPolicy

inductive Connective
  | conjunction
  | disjunction

namespace Connective

/-- What no members come to. The other truth value decides all that it is a member of. -/
def unit : Connective → Bool
  | conjunction => true
  | disjunction => false

def wrap : Connective → List Condition → Condition
  | conjunction => .all
  | disjunction => .any

/-- The members that a condition contributes, or nothing if it decides. -/
def split : Connective → Condition → Option (List Condition)
  | conjunction => Condition.conjuncts
  | disjunction => Condition.disjuncts

def join : Connective → Condition → Condition → Condition
  | conjunction => Condition.both
  | disjunction => Condition.either

def combine : Connective → Bool → Bool → Bool
  | conjunction => and
  | disjunction => or

def holds (facts : Facts) (meaning : Nat → Bool) : Connective → List Condition → Bool
  | conjunction => Condition.holdsForAll facts meaning
  | disjunction => Condition.holdsForAny facts meaning

/-- The condition that members come to; there are none if one of them has decided. -/
def collect (connective : Connective) : Option (List Condition) → Condition
  | none => .const !connective.unit
  | some [] => .const connective.unit
  | some [single] => single
  | some members => connective.wrap members

variable {connective : Connective} {facts others : Facts} {meaning other : Nat → Bool}
  {condition left right : Condition} {members lefts rights : List Condition} {value : Bool}

section Combining

theorem combine_unit_left : connective.combine connective.unit value = value := by
  cases connective <;> rfl

theorem combine_unit_right : connective.combine value connective.unit = value := by
  cases connective <;> simp [combine, unit]

theorem combine_zero_left : connective.combine (!connective.unit) value = !connective.unit := by
  cases connective <;> rfl

theorem combine_zero_right : connective.combine value (!connective.unit) = !connective.unit := by
  cases connective <;> simp [combine, unit]

theorem combine_assoc {first second third : Bool} :
    connective.combine (connective.combine first second) third =
      connective.combine first (connective.combine second third) := by
  cases connective with
  | conjunction => exact Bool.and_assoc ..
  | disjunction => exact Bool.or_assoc ..

end Combining

section Splitting

theorem split_unit : connective.split (.const connective.unit) = some [] := by
  cases connective <;> rfl

theorem split_zero : connective.split (.const !connective.unit) = none := by
  cases connective <;> rfl

theorem split_wrap : connective.split (connective.wrap members) = some members := by
  cases connective <;> rfl

theorem split_other (varies : ∀ value, condition ≠ .const value)
    (different : ∀ members, condition ≠ connective.wrap members) :
    connective.split condition = some [condition] := by
  cases connective
  all_goals
    cases condition with
    | const value => exact absurd rfl (varies value)
    | all members | any members =>
        first
        | rfl
        | exact absurd rfl (different members)
    | _ => rfl

inductive Shape (connective : Connective) : Condition → Prop
  | unit : Shape connective (.const connective.unit)
  | zero : Shape connective (.const !connective.unit)
  | wrap (members : List Condition) : Shape connective (connective.wrap members)
  | other {condition : Condition} : (∀ value, condition ≠ .const value) →
      (∀ members, condition ≠ connective.wrap members) → Shape connective condition

theorem shape (connective : Connective) (condition : Condition) :
    connective.Shape condition := by
  by_cases constant : ∃ value, condition = .const value
  · obtain ⟨value, rfl⟩ := constant
    obtain rfl | rfl := Bool.eq_or_eq_not value connective.unit
    · exact .unit
    · exact .zero
  · by_cases wrapped : ∃ members, condition = connective.wrap members
    · obtain ⟨members, rfl⟩ := wrapped
      exact .wrap members
    · exact .other (fun value same => constant ⟨value, same⟩)
        fun members same => wrapped ⟨members, same⟩

/-- A condition contributes nothing, its members, or itself. -/
theorem split_cases (split : connective.split condition = some members) :
    (condition = .const connective.unit ∧ members = []) ∨ condition = connective.wrap members ∨
      ((∀ value, condition ≠ .const value) ∧ (∀ inner, condition ≠ connective.wrap inner) ∧
        members = [condition]) := by
  cases connective.shape condition with
  | unit =>
      rw [split_unit] at split
      exact Or.inl ⟨rfl, (Option.some.inj split).symm⟩
  | zero =>
      rw [split_zero] at split
      cases split
  | wrap inner =>
      rw [split_wrap] at split
      exact Or.inr (Or.inl (congrArg connective.wrap (Option.some.inj split)))
  | other varies different =>
      rw [split_other varies different] at split
      exact Or.inr (Or.inr ⟨varies, different, (Option.some.inj split).symm⟩)

/-- A condition that contributes no members decides. -/
theorem eq_zero_of_split (split : connective.split condition = none) :
    condition = .const !connective.unit := by
  cases connective.shape condition with
  | unit =>
      rw [split_unit] at split
      cases split
  | zero => rfl
  | wrap members =>
      rw [split_wrap] at split
      cases split
  | other varies different =>
      rw [split_other varies different] at split
      cases split

theorem join_eq_collect : connective.join left right =
    connective.collect
      (Option.map₂ (· ++ ·) (connective.split left) (connective.split right)) := by
  cases connective
  all_goals
    simp only [join, split, Condition.both, Condition.either]
    split
    · rename_i lefts rights leftSplit rightSplit
      rw [leftSplit, rightSplit, Option.map₂_some_some]
      rcases lefts ++ rights with _ | ⟨first, _ | ⟨second, others⟩⟩ <;> rfl
    · rename_i impossible
      rw [Option.map₂_eq_none_iff.mpr]
      · rfl
      · by_contra neither
        rw [not_or] at neither
        obtain ⟨lefts, leftSplit⟩ := Option.ne_none_iff_exists'.mp neither.1
        obtain ⟨rights, rightSplit⟩ := Option.ne_none_iff_exists'.mp neither.2
        exact impossible lefts rights leftSplit rightSplit

end Splitting

section Holding

theorem holds_wrap : (connective.wrap members).holds facts meaning =
    connective.holds facts meaning members := by
  cases connective <;> rfl

theorem holds_nil : connective.holds facts meaning [] = connective.unit := by
  cases connective <;> rfl

theorem holds_cons : connective.holds facts meaning (condition :: members) =
    connective.combine (condition.holds facts meaning)
      (connective.holds facts meaning members) := by
  cases connective <;> rfl

theorem holds_append : connective.holds facts meaning (lefts ++ rights) =
    connective.combine (connective.holds facts meaning lefts)
      (connective.holds facts meaning rights) := by
  induction lefts with
  | nil => rw [List.nil_append, holds_nil, combine_unit_left]
  | cons left lefts induction =>
      rw [List.cons_append, holds_cons, holds_cons, induction, combine_assoc]

theorem holds_of_split (split : connective.split condition = some members) :
    condition.holds facts meaning = connective.holds facts meaning members := by
  obtain ⟨rfl, rfl⟩ | rfl | ⟨-, -, rfl⟩ := split_cases split
  · exact holds_nil.symm
  · exact holds_wrap
  · rw [holds_cons, holds_nil, combine_unit_right]

theorem holds_collect :
    (connective.collect (some members)).holds facts meaning =
      connective.holds facts meaning members := by
  match members with
  | [] => exact holds_nil.symm
  | [single] => rw [holds_cons, holds_nil, combine_unit_right, collect]
  | _ :: _ :: _ => exact holds_wrap

theorem holds_join (connective : Connective) : (connective.join left right).holds facts meaning =
    connective.combine (left.holds facts meaning) (right.holds facts meaning) := by
  rw [join_eq_collect]
  cases leftSplit : connective.split left with
  | none =>
      cases eq_zero_of_split leftSplit
      exact combine_zero_left.symm
  | some lefts =>
      cases rightSplit : connective.split right with
      | none =>
          cases eq_zero_of_split rightSplit
          exact combine_zero_right.symm
      | some rights =>
          rw [Option.map₂_some_some, holds_collect, holds_append, holds_of_split leftSplit,
            holds_of_split rightSplit]

theorem holds_map (connective : Connective) (change : Condition → Condition)
    (same : ∀ member ∈ members,
      (change member).holds facts meaning = member.holds others other) :
    connective.holds facts meaning (members.map change) = connective.holds others other members := by
  induction members with
  | nil => rw [List.map_nil, holds_nil, holds_nil]
  | cons member members induction =>
      obtain ⟨first, later⟩ := List.forall_mem_cons.mp same
      rw [List.map_cons, holds_cons, holds_cons, first, induction later]

theorem holds_congr (connective : Connective) (same : ∀ member ∈ members,
    member.holds facts meaning = member.holds others other) :
    connective.holds facts meaning members = connective.holds others other members := by
  have mapped := connective.holds_map id same
  rw [List.map_id] at mapped
  exact mapped

end Holding

end Connective

namespace Condition

variable {facts : Facts} {meaning other : Nat → Bool}

theorem holds_negation (operand : Condition) :
    operand.negation.holds facts meaning = !operand.holds facts meaning := by
  cases operand <;> simp [negation, holds]

/-- A property of all references of a connective is one of all references of its members. -/
theorem forall_references_of_members {good : UInt32 → Prop} {members : List Condition}
    (all : ∀ index ∈ referencesOfMembers members, good index) :
    ∀ member ∈ members, ∀ index ∈ member.references, good index := by
  induction members with
  | nil => simp
  | cons member members induction =>
      rw [referencesOfMembers, List.forall_mem_append] at all
      exact List.forall_mem_cons.mpr ⟨all.1, induction all.2⟩

theorem forall_references_of_connective {good : UInt32 → Prop} {members : List Condition}
    (each : ∀ member ∈ members, ∀ index ∈ member.references, good index) :
    ∀ index ∈ referencesOfMembers members, good index := by
  induction members with
  | nil => simp [referencesOfMembers]
  | cons member members induction =>
      obtain ⟨first, later⟩ := List.forall_mem_cons.mp each
      rw [referencesOfMembers, List.forall_mem_append]
      exact ⟨first, induction later⟩

theorem holds_congr {condition : Condition}
    (agree : ∀ index ∈ condition.references, meaning index.toNat = other index.toNat) :
    condition.holds facts meaning = condition.holds facts other := by
  induction condition using induct with
  | all members each =>
      exact Connective.conjunction.holds_congr fun member inside =>
        each member inside (forall_references_of_members agree member inside)
  | any members each =>
      exact Connective.disjunction.holds_congr fun member inside =>
        each member inside (forall_references_of_members agree member inside)
  | not operand induction =>
      rw [holds, holds, induction agree]
  | tag => rfl
  | attr => rfl
  | const => rfl
  | predicate index =>
      rw [holds, holds]
      exact agree index (by simp [references])

theorem references_append (lefts rights : List Condition) :
    referencesOfMembers (lefts ++ rights) =
      referencesOfMembers lefts ++ referencesOfMembers rights := by
  induction lefts with
  | nil => rfl
  | cons left lefts induction =>
      rw [List.cons_append, referencesOfMembers, referencesOfMembers, induction,
        List.append_assoc]

theorem references_negation (operand : Condition) :
    operand.negation.references = operand.references := by
  cases operand <;> rfl

end Condition

namespace Connective

variable {connective : Connective} {condition left right : Condition} {members : List Condition}

theorem references_wrap :
    (connective.wrap members).references = Condition.referencesOfMembers members := by
  cases connective <;> rfl

theorem references_of_split (split : connective.split condition = some members) :
    Condition.referencesOfMembers members = condition.references := by
  obtain ⟨rfl, rfl⟩ | rfl | ⟨-, -, rfl⟩ := split_cases split
  · rfl
  · exact references_wrap.symm
  · rw [Condition.referencesOfMembers, Condition.referencesOfMembers, List.append_nil]

/-- What two conditions may be joined to, by what each of them contributes: a constant, the only
member that there is, or a connective of several members. -/
inductive Joined (connective : Connective) (left right : Condition) : Condition → Prop
  | const (value : Bool) : Joined connective left right (.const value)
  | single {front back : List Condition} {only : Condition} :
      connective.split left = some front → connective.split right = some back →
        front ++ back = [only] → Joined connective left right only
  | several {front back : List Condition} :
      connective.split left = some front → connective.split right = some back →
        2 ≤ (front ++ back).length → Joined connective left right (connective.wrap (front ++ back))

theorem joined (connective : Connective) (left right : Condition) :
    connective.Joined left right (connective.join left right) := by
  rw [join_eq_collect]
  cases leftSplit : connective.split left with
  | none => exact .const _
  | some front =>
      cases rightSplit : connective.split right with
      | none => exact .const _
      | some back =>
          rw [Option.map₂_some_some]
          cases together : front ++ back with
          | nil => exact .const _
          | cons first rest =>
              cases rest with
              | nil => exact .single leftSplit rightSplit together
              | cons second rest =>
                  have several := Joined.several leftSplit rightSplit (by simp [together])
                  rw [together] at several
                  exact several

/-- Joining makes up no reference. -/
theorem mem_references_join (connective : Connective) {index : UInt32}
    (inside : index ∈ (connective.join left right).references) :
    index ∈ left.references ∨ index ∈ right.references := by
  have joined := connective.joined left right
  generalize connective.join left right = condition at joined inside
  cases joined with
  | const => cases inside
  | @single front back only leftSplit rightSplit single =>
      rw [← references_of_split leftSplit, ← references_of_split rightSplit, ← List.mem_append,
        ← Condition.references_append, single]
      simpa [Condition.referencesOfMembers] using inside
  | several leftSplit rightSplit _ =>
      rw [← references_of_split leftSplit, ← references_of_split rightSplit, ← List.mem_append,
        ← Condition.references_append, ← references_wrap]
      exact inside

end Connective

end TagPolicy
