import TagPolicy.Proofs.Policy.Compilation

/-!
Conditions whose references are sent to other places. Folding looks at no position, so it does not
matter whether references are sent on before it or after. What a condition means and how it is shown
stays the same if what the references are sent to means the same and is called the same.
-/

namespace TagPolicy

open TagPolicy.Language (Expr)
open Outcome (ok_bind)

namespace Condition

mutual

/-- The condition with every reference sent to another place. -/
def redirected (place : UInt32 → UInt32) : Condition → Condition
  | all members => all (redirectedMembers place members)
  | any members => any (redirectedMembers place members)
  | not operand => not (operand.redirected place)
  | tag name => tag name
  | attr name comparison value => attr name comparison value
  | const value => const value
  | predicate index => predicate (place index)

def redirectedMembers (place : UInt32 → UInt32) : List Condition → List Condition
  | [] => []
  | member :: members => member.redirected place :: redirectedMembers place members

end

variable {place : UInt32 → UInt32}

section Folding

theorem redirected_members_eq_map (members : List Condition) :
    redirectedMembers place members = members.map (redirected place) := by
  induction members with
  | nil => rfl
  | cons member members induction => rw [redirectedMembers, induction, List.map_cons]

theorem redirected_members_append (lefts rights : List Condition) :
    redirectedMembers place (lefts ++ rights) =
      redirectedMembers place lefts ++ redirectedMembers place rights := by
  rw [redirected_members_eq_map, redirected_members_eq_map, redirected_members_eq_map,
    List.map_append]

theorem negation_redirected (operand : Condition) :
    operand.negation.redirected place = (operand.redirected place).negation := by
  cases operand <;> rfl

theorem is_leaf_redirected (condition : Condition) :
    (condition.redirected place).isLeaf = condition.isLeaf := by
  cases condition <;> rfl

end Folding

end Condition

namespace Connective

open Condition (redirectedMembers redirected_members_append)

variable {place : UInt32 → UInt32} {connective : Connective}

theorem split_redirected (condition : Condition) :
    connective.split (condition.redirected place) =
      (connective.split condition).map (redirectedMembers place) := by
  cases connective
  all_goals
    cases condition with
    | const value => cases value <;> rfl
    | _ => rfl

theorem wrap_redirected (members : List Condition) :
    (connective.wrap members).redirected place =
      connective.wrap (redirectedMembers place members) := by
  cases connective <;> rfl

theorem collect_redirected (parts : Option (List Condition)) :
    (connective.collect parts).redirected place =
      connective.collect (parts.map (redirectedMembers place)) := by
  match parts with
  | none => rfl
  | some [] => rfl
  | some [_] => rfl
  | some (_ :: _ :: _) => exact wrap_redirected _

theorem join_redirected (connective : Connective) (left right : Condition) :
    (connective.join left right).redirected place =
      connective.join (left.redirected place) (right.redirected place) := by
  rw [join_eq_collect, join_eq_collect, split_redirected, split_redirected, collect_redirected]
  cases connective.split left with
  | none => rfl
  | some lefts =>
      cases connective.split right with
      | none => rfl
      | some rights =>
          rw [Option.map_some, Option.map_some, Option.map₂_some_some, Option.map₂_some_some,
            Option.map_some, redirected_members_append]

end Connective

namespace Condition

variable {place : UInt32 → UInt32}

section Meaning

variable {facts : Facts} {meaning other : Nat → Bool} {names others : List String}

theorem holds_redirected {condition : Condition}
    (agree : ∀ index ∈ condition.references, meaning (place index).toNat = other index.toNat) :
    (condition.redirected place).holds facts meaning = condition.holds facts other := by
  induction condition using induct with
  | all members each =>
      rw [redirected, redirected_members_eq_map]
      exact Connective.conjunction.holds_map _ fun member inside =>
        each member inside (forall_references_of_members agree member inside)
  | any members each =>
      rw [redirected, redirected_members_eq_map]
      exact Connective.disjunction.holds_map _ fun member inside =>
        each member inside (forall_references_of_members agree member inside)
  | not operand induction => rw [redirected, holds, holds, induction agree]
  | tag name => rfl
  | attr name comparison value => rfl
  | const value => rfl
  | predicate index => exact agree index (by simp [references])

theorem render_members_redirected {members : List Condition}
    (each : ∀ member ∈ members, (member.redirected place).render names = member.render others) :
    renderMembers names (redirectedMembers place members) = renderMembers others members := by
  induction members with
  | nil => rfl
  | cons member members induction =>
      obtain ⟨first, later⟩ := List.forall_mem_cons.mp each
      rw [redirectedMembers, renderMembers, renderMembers, first, induction later]

theorem render_redirected {condition : Condition}
    (agree : ∀ index ∈ condition.references,
      renderReference names (place index) = renderReference others index) :
    (condition.redirected place).render names = condition.render others := by
  induction condition using induct with
  | all members each =>
      rw [redirected, render, render, render_members_redirected fun member inside =>
        each member inside (forall_references_of_members agree member inside)]
  | any members each =>
      rw [redirected, render, render, render_members_redirected fun member inside =>
        each member inside (forall_references_of_members agree member inside)]
  | not operand induction => rw [redirected, render, render, induction agree]
  | tag name => rfl
  | attr name comparison value => rfl
  | const value => rfl
  | predicate index => exact agree index (by simp [references])

theorem redirected_members_id {members : List Condition}
    (each : ∀ member ∈ members, member.redirected id = member) :
    redirectedMembers id members = members := by
  induction members with
  | nil => rfl
  | cons member members induction =>
      obtain ⟨first, later⟩ := List.forall_mem_cons.mp each
      rw [redirectedMembers, first, induction later]

theorem redirected_id (condition : Condition) : condition.redirected id = condition := by
  induction condition using induct with
  | all members each => rw [redirected, redirected_members_id each]
  | any members each => rw [redirected, redirected_members_id each]
  | not operand induction => rw [redirected, induction]
  | _ => rfl

/-- A condition is shown in the same way where its references have the same names. -/
theorem render_congr {condition : Condition}
    (agree : ∀ index ∈ condition.references,
      renderReference names index = renderReference others index) :
    condition.render names = condition.render others := by
  have same : (condition.redirected id).render names = condition.render others :=
    render_redirected agree
  rw [redirected_id] at same
  exact same

end Meaning

end Condition

def Predicate.redirected (place : UInt32 → UInt32) (predicate : Predicate) : Predicate :=
  ⟨predicate.name, predicate.condition.redirected place⟩

section Lowering

variable {place : UInt32 → UInt32} {predicates others : List Predicate} {expr : Expr}
  {condition : Condition}

/-- Where no two predicates have the same name, each is found under its own. -/
theorem lookup_from_of_distinct {position : Nat} {predicate : Predicate} (start : Nat)
    (distinct : (predicates.map Predicate.name).Nodup)
    (present : predicates[position]? = some predicate) :
    lookupFrom predicate.name start predicates = some (start + position, predicate) := by
  induction predicates generalizing start position with
  | nil => cases present
  | cons head rest induction =>
      obtain ⟨new, distinct⟩ := List.nodup_cons.mp distinct
      rw [lookupFrom]
      cases position with
      | zero =>
          cases present
          rw [if_pos rfl, Nat.add_zero]
      | succ position =>
          rw [List.getElem?_cons_succ] at present
          have other : head.name ≠ predicate.name := by
            intro same
            rw [same] at new
            exact new (List.mem_map_of_mem (List.mem_of_getElem? present))
          rw [if_neg other, induction (start + 1) distinct present, Nat.add_right_comm,
            Nat.add_assoc]

/-- The predicates of a list are found in another by their names, at other places and with their
references sent to those. -/
def Redirects (place : UInt32 → UInt32) (predicates others : List Predicate) : Prop :=
  ∀ (position : Nat) (predicate : Predicate), predicates[position]? = some predicate →
    ∃ later, lookupFrom predicate.name 0 others = some (later, predicate.redirected place) ∧
      UInt32.ofNat later = place (UInt32.ofNat position)

theorem Redirects.resolve {position : Nat} {predicate : Predicate}
    (redirects : Redirects place predicates others)
    (present : predicates[position]? = some predicate) :
    TagPolicy.resolve others predicate.name =
      .ok (if predicate.condition.isLeaf then predicate.condition.redirected place
        else .predicate (place (UInt32.ofNat position))) := by
  obtain ⟨later, found, same⟩ := redirects position predicate present
  rw [TagPolicy.resolve, found]
  dsimp only
  rw [same, Predicate.redirected, Condition.is_leaf_redirected]

/-- An expression compiles to the same condition with its references sent on. -/
theorem Redirects.lower (redirects : Redirects place predicates others)
    (lowers : Lowers predicates expr condition) :
    TagPolicy.lower others expr = .ok (condition.redirected place) := by
  induction lowers with
  | and _ _ left right =>
      rw [TagPolicy.lower, left, right]
      exact congrArg Except.ok (Connective.conjunction.join_redirected _ _).symm
  | or _ _ left right =>
      rw [TagPolicy.lower, left, right]
      exact congrArg Except.ok (Connective.disjunction.join_redirected _ _).symm
  | not _ operand =>
      rw [TagPolicy.lower, operand, Condition.negation_redirected]
      rfl
  | tag => rfl
  | attr => rfl
  | literal => rfl
  | copied present named leaf =>
      rw [TagPolicy.lower, ← named, redirects.resolve present, if_pos leaf]
  | referred present named compound =>
      rw [TagPolicy.lower, ← named, redirects.resolve present, compound]
      rfl

end Lowering

end TagPolicy
