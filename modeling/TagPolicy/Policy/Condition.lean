import TagPolicy.Language.Expr

/-!
Compiled conditions. Connectives take any number of members, and predicates are referred to by their
position in a table. The module holds the measures of a condition, its text, the tags it names, and
an induction principle that gives the hypothesis for every member of a connective (`induct`).
-/

namespace TagPolicy

inductive Condition
  | all (members : List Condition)
  | any (members : List Condition)
  | not (operand : Condition)
  | tag (name : String)
  | attr (name : String) (comparison : Comparison) (value : Value)
  | const (value : Bool)
  /-- The predicate at a position of the table. -/
  | predicate (index : UInt32)
deriving Repr

namespace Condition

/-- Induction over conditions, with the hypothesis for every member of a connective. -/
theorem induct {motive : Condition → Prop}
    (all : ∀ members, (∀ member ∈ members, motive member) → motive (.all members))
    (any : ∀ members, (∀ member ∈ members, motive member) → motive (.any members))
    (not : ∀ operand, motive operand → motive (.not operand))
    (tag : ∀ name, motive (.tag name))
    (attr : ∀ name comparison value, motive (.attr name comparison value))
    (const : ∀ value, motive (.const value))
    (predicate : ∀ index, motive (.predicate index)) (condition : Condition) :
    motive condition :=
  @Condition.rec motive (fun members => ∀ member ∈ members, motive member)
    all any not tag attr const predicate
    (fun member absent => absurd absent (List.not_mem_nil))
    (fun _ _ head tail => by
      intro member inside
      rcases List.mem_cons.mp inside with rfl | inside
      · exact head
      · exact tail member inside)
    condition

mutual

def same : Condition → Condition → Bool
  | all left, all right => sameMembers left right
  | any left, any right => sameMembers left right
  | not left, not right => same left right
  | tag left, tag right => left == right
  | attr leftName leftComparison leftValue, attr rightName rightComparison rightValue =>
      leftName == rightName && leftComparison == rightComparison && leftValue == rightValue
  | const left, const right => left == right
  | predicate left, predicate right => left == right
  | _, _ => false

def sameMembers : List Condition → List Condition → Bool
  | [], [] => true
  | left :: lefts, right :: rights => same left right && sameMembers lefts rights
  | _, _ => false

end

theorem same_iff (left right : Condition) : same left right = true ↔ left = right := by
  have members : ∀ lefts : List Condition,
      (∀ left ∈ lefts, ∀ right, same left right = true ↔ left = right) →
      ∀ rights, sameMembers lefts rights = true ↔ lefts = rights := by
    intro lefts
    induction lefts with
    | nil => intro _ rights; cases rights <;> simp [sameMembers]
    | cons head tail induction =>
        intro each rights
        cases rights with
        | nil => simp [sameMembers]
        | cons other others =>
            simp only [sameMembers, Bool.and_eq_true, List.cons.injEq]
            rw [each head (by simp) other,
              induction (fun left inside => each left (List.mem_cons_of_mem _ inside)) others]
  induction left using induct generalizing right with
  | all lefts each => cases right <;> simp [same, members lefts each]
  | any lefts each => cases right <;> simp [same, members lefts each]
  | not left operand => cases right <;> simp [same, operand]
  | tag => cases right <;> simp [same]
  | attr => cases right <;> simp [same, and_assoc]
  | const => cases right <;> simp [same]
  | predicate => cases right <;> simp [same]

instance : DecidableEq Condition := fun left right =>
  if equal : same left right = true then isTrue ((same_iff left right).mp equal)
  else isFalse fun equality => equal ((same_iff left right).mpr equality)

mutual

/-- The depth of the tree; a leaf and a connective without members have depth one. -/
def depth : Condition → Nat
  | all members => depthOfMembers members + 1
  | any members => depthOfMembers members + 1
  | not operand => operand.depth + 1
  | _ => 1

def depthOfMembers : List Condition → Nat
  | [] => 0
  | member :: members => max member.depth (depthOfMembers members)

end

mutual

def size : Condition → Nat
  | all members => sizeOfMembers members + 1
  | any members => sizeOfMembers members + 1
  | not operand => operand.size + 1
  | _ => 1

def sizeOfMembers : List Condition → Nat
  | [] => 0
  | member :: members => member.size + sizeOfMembers members

end

mutual

/-- The tag names in the condition, one for each occurrence, from left to right. -/
def tagOccurrences : Condition → List String
  | all members => tagOccurrencesOfMembers members
  | any members => tagOccurrencesOfMembers members
  | not operand => operand.tagOccurrences
  | tag name => [name]
  | _ => []

def tagOccurrencesOfMembers : List Condition → List String
  | [] => []
  | member :: members => member.tagOccurrences ++ tagOccurrencesOfMembers members

end

/-- The items of a list that are not yet in a list of items seen, each at its first occurrence. -/
def firstOccurrences (seen : List String) : List String → List String
  | [] => []
  | item :: rest =>
      if item ∈ seen then firstOccurrences seen rest
      else item :: firstOccurrences (item :: seen) rest

/-- The tag names in the condition, each once, in the order of their first occurrence. -/
def referencedTags (condition : Condition) : List String :=
  firstOccurrences [] condition.tagOccurrences

mutual

def references : Condition → List UInt32
  | all members => referencesOfMembers members
  | any members => referencesOfMembers members
  | not operand => operand.references
  | predicate index => [index]
  | _ => []

def referencesOfMembers : List Condition → List UInt32
  | [] => []
  | member :: members => member.references ++ referencesOfMembers members

end

def renderTag (name : String) : String := "\x7b" ++ name ++ "\x7d"

def renderAttr (name : String) (comparison : Comparison) (value : Value) : String :=
  "attr(" ++ name ++ ") " ++ comparison.render ++ " " ++ value.render

def renderConst : Bool → String
  | true => "TRUE"
  | false => "FALSE"

/-- A reference to a predicate: by name if the table has a name for it, else by position. -/
def renderReference (names : List String) (index : UInt32) : String :=
  match names[index.toNat]? with
  | some name => "[" ++ name ++ "]"
  | none => s!"[#{index.toNat}]"

mutual

def render (names : List String) : Condition → String
  | all members => "(" ++ " AND ".intercalate (renderMembers names members) ++ ")"
  | any members => "(" ++ " OR ".intercalate (renderMembers names members) ++ ")"
  | not operand => "NOT " ++ operand.render names
  | tag name => renderTag name
  | attr name comparison value => renderAttr name comparison value
  | const value => renderConst value
  | predicate index => renderReference names index

def renderMembers (names : List String) : List Condition → List String
  | [] => []
  | member :: members => member.render names :: renderMembers names members

end

end Condition

end TagPolicy
