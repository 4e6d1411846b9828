/-!
Finite sets over a linear order, kept as the list of their members in increasing order. Equal
sets are therefore equal values: two sets with the same members have the same list (`ext`).
Membership after each operation is stated beside the operation.
-/

namespace TagPolicy

/-- A finite set, held as its members in increasing order. -/
structure OrderedSet (α : Type) [LT α] where
  toList : List α
  increasing : toList.Pairwise (· < ·)

namespace OrderedSet

variable {α : Type} [LT α]

instance [DecidableEq α] : DecidableEq (OrderedSet α) := fun left right =>
  if same : left.toList = right.toList then
    isTrue (by cases left; cases right; cases same; rfl)
  else
    isFalse fun equal => same (congrArg toList equal)

instance : Membership α (OrderedSet α) := ⟨fun set member => member ∈ set.toList⟩

theorem mem_def {member : α} {set : OrderedSet α} : member ∈ set ↔ member ∈ set.toList := Iff.rfl

instance [DecidableEq α] (member : α) (set : OrderedSet α) : Decidable (member ∈ set) :=
  inferInstanceAs (Decidable (member ∈ set.toList))

def empty : OrderedSet α := ⟨[], List.Pairwise.nil⟩

instance : Inhabited (OrderedSet α) := ⟨empty⟩

@[simp] theorem not_mem_empty (member : α) : member ∉ (empty : OrderedSet α) := by
  simp [mem_def, empty]

def size (set : OrderedSet α) : Nat := set.toList.length

def isEmpty (set : OrderedSet α) : Bool := set.toList.isEmpty

def contains [DecidableEq α] (set : OrderedSet α) (member : α) : Bool := decide (member ∈ set)

@[simp] theorem contains_eq_true [DecidableEq α] {set : OrderedSet α} {member : α} :
    set.contains member = true ↔ member ∈ set := by simp [contains]

def place [DecidableLT α] (value : α) : List α → List α
  | [] => [value]
  | head :: rest =>
      if value < head then value :: head :: rest
      else if head < value then head :: place value rest
      else head :: rest

def erase [DecidableEq α] (set : OrderedSet α) (value : α) : OrderedSet α :=
  ⟨set.toList.filter (· ≠ value), set.increasing.filter _⟩

@[simp] theorem mem_erase [DecidableEq α] {set : OrderedSet α} {value member : α} :
    member ∈ set.erase value ↔ member ≠ value ∧ member ∈ set := by
  simp [erase, mem_def, and_comm]

def isSupersetOf [DecidableEq α] (larger smaller : OrderedSet α) : Bool :=
  smaller.toList.all larger.contains

@[simp] theorem is_superset_of_iff [DecidableEq α] {larger smaller : OrderedSet α} :
    larger.isSupersetOf smaller = true ↔ ∀ member ∈ smaller, member ∈ larger := by
  simp [isSupersetOf, mem_def, contains]

section Linear

variable [LE α] [Std.IsLinearOrder α] [Std.LawfulOrderLT α]

theorem eq_of_not_lt {left right : α} (notLeft : ¬ left < right) (notRight : ¬ right < left) :
    left = right :=
  Std.le_antisymm (Std.not_lt.mp notRight) (Std.not_lt.mp notLeft)

variable [DecidableLT α]

theorem mem_place {value member : α} {list : List α} :
    member ∈ place value list ↔ member = value ∨ member ∈ list := by
  induction list with
  | nil => simp [place]
  | cons head rest induction =>
      unfold place
      split
      · simp
      · split
        · simp only [List.mem_cons, induction]
          constructor <;> rintro (h | h | h) <;> simp [h]
        · rename_i notBefore notAfter
          have same := eq_of_not_lt notBefore notAfter
          subst same
          simp

theorem pairwise_place {value : α} {list : List α} (increasing : list.Pairwise (· < ·)) :
    (place value list).Pairwise (· < ·) := by
  induction list with
  | nil => simp [place]
  | cons head rest induction =>
      obtain ⟨below, tail⟩ := List.pairwise_cons.mp increasing
      unfold place
      split
      · rename_i before
        refine List.pairwise_cons.mpr ⟨?_, increasing⟩
        intro other member
        rcases List.mem_cons.mp member with rfl | member
        · exact before
        · exact Std.lt_trans before (below other member)
      · split
        · rename_i after
          refine List.pairwise_cons.mpr ⟨?_, induction tail⟩
          intro other member
          rcases mem_place.mp member with rfl | member
          · exact after
          · exact below other member
        · exact increasing

def insert (set : OrderedSet α) (value : α) : OrderedSet α :=
  ⟨place value set.toList, pairwise_place set.increasing⟩

@[simp] theorem mem_insert {set : OrderedSet α} {value member : α} :
    member ∈ set.insert value ↔ member = value ∨ member ∈ set := mem_place

def insertMany (set : OrderedSet α) (values : List α) : OrderedSet α := values.foldl insert set

@[simp] theorem mem_insert_many {set : OrderedSet α} {values : List α} {member : α} :
    member ∈ set.insertMany values ↔ member ∈ values ∨ member ∈ set := by
  induction values generalizing set with
  | nil => simp [insertMany]
  | cons value values induction =>
      have step : set.insertMany (value :: values) = (set.insert value).insertMany values := rfl
      rw [step, induction, mem_insert, List.mem_cons, or_left_comm, or_assoc]

def ofList (values : List α) : OrderedSet α := empty.insertMany values

@[simp] theorem mem_ofList {values : List α} {member : α} :
    member ∈ ofList values ↔ member ∈ values := by simp [ofList]

def union (left right : OrderedSet α) : OrderedSet α := left.insertMany right.toList

instance : Union (OrderedSet α) := ⟨union⟩

@[simp] theorem mem_union {left right : OrderedSet α} {member : α} :
    member ∈ left ∪ right ↔ member ∈ left ∨ member ∈ right := by
  show member ∈ left.insertMany right.toList ↔ _
  rw [mem_insert_many, or_comm]
  rfl

omit [DecidableLT α] in
theorem ext {left right : OrderedSet α} (same : ∀ member, member ∈ left ↔ member ∈ right) :
    left = right := by
  have lists : ∀ {first second : List α}, first.Pairwise (· < ·) → second.Pairwise (· < ·) →
      (∀ member, member ∈ first ↔ member ∈ second) → first = second := by
    intro first
    induction first with
    | nil =>
        intro second _ _ same
        cases second with
        | nil => rfl
        | cons head rest => exact absurd ((same head).mpr (by simp)) (by simp)
    | cons head rest induction =>
        intro second increasingFirst increasingSecond same
        cases second with
        | nil => exact absurd ((same head).mp (by simp)) (by simp)
        | cons other others =>
            obtain ⟨belowFirst, tailFirst⟩ := List.pairwise_cons.mp increasingFirst
            obtain ⟨belowSecond, tailSecond⟩ := List.pairwise_cons.mp increasingSecond
            have heads : head = other := by
              rcases List.mem_cons.mp ((same head).mp (by simp)) with equal | inOthers
              · exact equal
              · rcases List.mem_cons.mp ((same other).mpr (by simp)) with equal | inRest
                · exact equal.symm
                · exact absurd (Std.lt_trans (belowSecond head inOthers) (belowFirst other inRest))
                    Std.lt_irrefl
            subst heads
            have tails : rest = others := by
              refine induction tailFirst tailSecond fun member => ?_
              constructor
              · intro inRest
                rcases List.mem_cons.mp ((same member).mp (List.mem_cons_of_mem _ inRest)) with
                  equal | inOthers
                · exact absurd (equal ▸ belowFirst member inRest) Std.lt_irrefl
                · exact inOthers
              · intro inOthers
                rcases List.mem_cons.mp ((same member).mpr (List.mem_cons_of_mem _ inOthers)) with
                  equal | inRest
                · exact absurd (equal ▸ belowSecond member inOthers) Std.lt_irrefl
                · exact inRest
            rw [tails]
  have equal := lists left.increasing right.increasing same
  cases left
  cases right
  cases equal
  rfl

end Linear

end OrderedSet

end TagPolicy
