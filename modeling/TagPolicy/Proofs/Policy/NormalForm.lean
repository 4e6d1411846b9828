import TagPolicy.Proofs.Policy.Compilation

/-!
The normal form of compiled conditions. Below the root there is no constant, no connective stands
directly inside one of its own kind or has fewer than two members, no negation is negated, and a
reference is to a predicate that could not be copied. Joining and negating conditions in normal form
gives conditions in normal form, and no more nodes than the expression had.
-/

namespace TagPolicy

open TagPolicy.Language (Expr)

namespace Condition

variable {shared : UInt32 → Prop} {wrap : List Condition → Condition}
  {condition left right operand : Condition} {members : List Condition}

/-- Normal form without constants, where `shared` are the positions that may be referred to. -/
inductive Plain (shared : UInt32 → Prop) : Condition → Prop
  | all {members : List Condition} :
      2 ≤ members.length → (∀ member ∈ members, Plain shared member) →
        (∀ inner, .all inner ∉ members) → Plain shared (.all members)
  | any {members : List Condition} :
      2 ≤ members.length → (∀ member ∈ members, Plain shared member) →
        (∀ inner, .any inner ∉ members) → Plain shared (.any members)
  | not {operand : Condition} :
      Plain shared operand → (∀ inner, operand ≠ .not inner) → Plain shared (.not operand)
  | tag {name : String} : Plain shared (.tag name)
  | attr {name : String} {comparison : Comparison} {value : Value} :
      Plain shared (.attr name comparison value)
  | predicate {index : UInt32} : shared index → Plain shared (.predicate index)

/-- A constant, or a condition in which there is none. -/
inductive Normal (shared : UInt32 → Prop) : Condition → Prop
  | const {value : Bool} : Normal shared (.const value)
  | plain {condition : Condition} : Plain shared condition → Normal shared condition

section Joining

/-- Members that may stand together in a connective. -/
def Loose (wrap : List Condition → Condition) (shared : UInt32 → Prop) (members : List Condition) :
    Prop :=
  (∀ member ∈ members, Plain shared member) ∧ ∀ inner, wrap inner ∉ members

theorem loose_singleton (plain : Plain shared condition) (other : ∀ inner, wrap inner ≠ condition) :
    Loose wrap shared [condition] := by
  constructor
  · intro member inside
    cases List.mem_singleton.mp inside
    exact plain
  · intro inner inside
    exact other inner (List.mem_singleton.mp inside)

theorem loose_nil : Loose wrap shared [] := ⟨by simp, by simp⟩

theorem loose_append {front back : List Condition} (left : Loose wrap shared front)
    (right : Loose wrap shared back) : Loose wrap shared (front ++ back) := by
  constructor
  · exact List.forall_mem_append.mpr ⟨left.1, right.1⟩
  · intro inner inside
    rcases List.mem_append.mp inside with inside | inside
    · exact left.2 inner inside
    · exact right.2 inner inside

end Joining

theorem normal_negation (normal : operand.Normal shared) : operand.negation.Normal shared := by
  cases normal with
  | const => exact .const
  | plain plain =>
      have whole := plain
      cases plain with
      | not inner => exact .plain inner
      | _ => exact .plain (.not whole (by simp))

theorem normal_of_is_leaf {condition : Condition} (leaf : condition.isLeaf = true) :
    condition.Normal fun _ => True := by
  cases condition with
  | all | any | not => cases leaf
  | tag => exact .plain .tag
  | attr => exact .plain .attr
  | const => exact .const
  | predicate => exact .plain (.predicate trivial)

section Size

theorem size_of_members_append (lefts rights : List Condition) :
    sizeOfMembers (lefts ++ rights) = sizeOfMembers lefts + sizeOfMembers rights := by
  induction lefts with
  | nil => simp [sizeOfMembers]
  | cons left lefts induction =>
      rw [List.cons_append, sizeOfMembers, sizeOfMembers, induction, Nat.add_assoc]

theorem size_negation (operand : Condition) : operand.negation.size ≤ operand.size + 1 := by
  cases operand <;> simp [negation, size]
  omega

theorem size_of_is_leaf (leaf : condition.isLeaf = true) : condition.size = 1 := by
  cases condition <;> first | rfl | cases leaf

end Size

end Condition

open Condition (Loose)

namespace Connective

variable {connective : Connective} {shared : UInt32 → Prop} {condition left right : Condition}
  {members : List Condition}

theorem plain_wrap : Condition.Plain shared (connective.wrap members) ↔
    2 ≤ members.length ∧ Loose connective.wrap shared members := by
  constructor
  · intro plain
    cases connective with
    | conjunction =>
        cases plain with
        | all several each flat => exact ⟨several, each, flat⟩
    | disjunction =>
        cases plain with
        | any several each flat => exact ⟨several, each, flat⟩
  · rintro ⟨several, each, flat⟩
    cases connective with
    | conjunction => exact .all several each flat
    | disjunction => exact .any several each flat

theorem plain_of_normal_wrap (normal : (connective.wrap members).Normal shared) :
    Condition.Plain shared (connective.wrap members) := by
  generalize wrapped : connective.wrap members = condition at normal ⊢
  cases normal with
  | const => cases connective <;> cases wrapped
  | plain plain => exact plain

theorem loose_of_split (normal : condition.Normal shared)
    (split : connective.split condition = some members) :
    Loose connective.wrap shared members := by
  obtain ⟨rfl, rfl⟩ | rfl | ⟨varies, different, rfl⟩ := split_cases split
  · exact Condition.loose_nil
  · exact (plain_wrap.mp (plain_of_normal_wrap normal)).2
  · cases normal with
    | const => exact absurd rfl (varies _)
    | plain plain => exact Condition.loose_singleton plain fun inner same => different inner same.symm

theorem normal_join (connective : Connective) (leftNormal : left.Normal shared)
    (rightNormal : right.Normal shared) : (connective.join left right).Normal shared := by
  have joined := connective.joined left right
  generalize connective.join left right = condition at joined
  cases joined with
  | const => exact .const
  | single leftSplit rightSplit only =>
      have loose := Condition.loose_append (loose_of_split leftNormal leftSplit)
        (loose_of_split rightNormal rightSplit)
      rw [only] at loose
      exact .plain (loose.1 _ List.mem_cons_self)
  | several leftSplit rightSplit several =>
      exact .plain (plain_wrap.mpr ⟨several, Condition.loose_append
        (loose_of_split leftNormal leftSplit) (loose_of_split rightNormal rightSplit)⟩)

theorem size_wrap : (connective.wrap members).size = Condition.sizeOfMembers members + 1 := by
  cases connective <;> rfl

theorem size_of_split (split : connective.split condition = some members) :
    Condition.sizeOfMembers members ≤ condition.size := by
  obtain ⟨rfl, rfl⟩ | rfl | ⟨-, -, rfl⟩ := split_cases split
  · exact Nat.zero_le _
  · rw [size_wrap]
    exact Nat.le_succ _
  · exact Nat.le_refl _

theorem size_join (connective : Connective) (left right : Condition) :
    (connective.join left right).size ≤ left.size + right.size + 1 := by
  have joined := connective.joined left right
  generalize connective.join left right = condition at joined
  cases joined with
  | const => simp [Condition.size]
  | single leftSplit rightSplit single =>
      have front := size_of_split leftSplit
      have back := size_of_split rightSplit
      have total := congrArg Condition.sizeOfMembers single
      simp only [Condition.size_of_members_append, Condition.sizeOfMembers] at total
      omega
  | several leftSplit rightSplit _ =>
      have front := size_of_split leftSplit
      have back := size_of_split rightSplit
      rw [size_wrap, Condition.size_of_members_append]
      omega

end Connective

namespace Condition

variable {condition : Condition}

/-- A condition with parts, which a reference does not copy. -/
inductive IsCompound : Condition → Prop
  | all {members : List Condition} : IsCompound (.all members)
  | any {members : List Condition} : IsCompound (.any members)
  | not {operand : Condition} : IsCompound (.not operand)

theorem is_compound_iff : condition.IsCompound ↔ condition.isLeaf = false := by
  constructor
  · intro compound
    cases compound <;> rfl
  · intro compound
    cases condition with
    | all members => exact .all
    | any members => exact .any
    | not operand => exact .not
    | _ => cases compound

end Condition

open Condition (IsCompound Normal is_compound_iff)

/-- The positions of the predicates that are referred to and not copied. -/
def Shared (predicates : List Predicate) (index : UInt32) : Prop :=
  ∃ predicate, predicates[index.toNat]? = some predicate ∧ predicate.condition.IsCompound

section Lowering

variable {known : List Predicate} {shared : UInt32 → Prop} {expr : Expr} {condition : Condition}

/-- What an expression compiles to is in normal form if the predicates that it copies are. -/
theorem normal_lower (normal : ∀ predicate ∈ known, predicate.condition.isLeaf = true →
      predicate.condition.Normal shared)
    (compound : ∀ (position : Nat) (predicate : Predicate), known[position]? = some predicate →
      predicate.condition.IsCompound → shared (UInt32.ofNat position))
    (lowered : lower known expr = .ok condition) : condition.Normal shared := by
  replace lowered := lowers_of_ok lowered
  induction lowered with
  | and _ _ left right => exact Connective.conjunction.normal_join left right
  | or _ _ left right => exact Connective.disjunction.normal_join left right
  | not _ operand => exact Condition.normal_negation operand
  | tag => exact .plain .tag
  | attr => exact .plain .attr
  | literal => exact .const
  | copied present _ leaf => exact normal _ (List.mem_of_getElem? present) leaf
  | referred present _ parts =>
      exact .plain (.predicate (compound _ _ present (is_compound_iff.mpr parts)))

theorem size_lower (lowered : lower known expr = .ok condition) : condition.size ≤ expr.size := by
  replace lowered := lowers_of_ok lowered
  induction lowered with
  | @and _ _ first second _ _ left right =>
      have both : (first.both second).size ≤ _ := Connective.conjunction.size_join first second
      rw [Expr.size]
      omega
  | @or _ _ first second _ _ left right =>
      have either : (first.either second).size ≤ _ :=
        Connective.disjunction.size_join first second
      rw [Expr.size]
      omega
  | @not _ inner _ operand =>
      have negation := Condition.size_negation inner
      rw [Expr.size]
      omega
  | copied _ _ leaf => exact Nat.le_of_eq (Condition.size_of_is_leaf leaf)
  | _ => exact Nat.le_refl _

end Lowering

end TagPolicy
