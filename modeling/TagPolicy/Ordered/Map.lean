/-!
Finite maps over a linearly ordered key type, kept as the list of their entries in increasing key
order. A key occurs at most once, so equality of maps is decided by equality of lists. `get?_insert`
says that an insertion is seen at its own key and nowhere else.
-/

namespace TagPolicy

/-- A finite map, held as its entries in increasing order of their keys. -/
structure OrderedMap (κ ν : Type) [LT κ] where
  entries : List (κ × ν)
  increasing : entries.Pairwise fun first second => first.1 < second.1

namespace OrderedMap

variable {κ ν : Type} [LT κ]

instance [DecidableEq κ] [DecidableEq ν] : DecidableEq (OrderedMap κ ν) := fun left right =>
  if same : left.entries = right.entries then
    isTrue (by cases left; cases right; cases same; rfl)
  else
    isFalse fun equal => same (congrArg entries equal)

def empty : OrderedMap κ ν := ⟨[], List.Pairwise.nil⟩

instance : Inhabited (OrderedMap κ ν) := ⟨empty⟩

def find [DecidableEq κ] (key : κ) : List (κ × ν) → Option ν
  | [] => none
  | (other, value) :: rest => if key = other then some value else find key rest

def get? [DecidableEq κ] (map : OrderedMap κ ν) (key : κ) : Option ν := find key map.entries

@[simp] theorem get?_empty [DecidableEq κ] (key : κ) :
    (empty : OrderedMap κ ν).get? key = none := rfl

/-- An entry put at its key's place; an older value at that key is replaced. -/
def place [DecidableLT κ] (key : κ) (value : ν) : List (κ × ν) → List (κ × ν)
  | [] => [(key, value)]
  | (other, old) :: rest =>
      if key < other then (key, value) :: (other, old) :: rest
      else if other < key then (other, old) :: place key value rest
      else (key, value) :: rest

section Linear

variable [LE κ] [Std.IsLinearOrder κ] [Std.LawfulOrderLT κ]

theorem key_eq_of_not_lt {left right : κ} (notLeft : ¬ left < right) (notRight : ¬ right < left) :
    left = right :=
  Std.le_antisymm (Std.not_lt.mp notRight) (Std.not_lt.mp notLeft)

variable [DecidableLT κ]

omit [LE κ] [Std.IsLinearOrder κ] [Std.LawfulOrderLT κ] in
theorem key_of_mem_place {key : κ} {value : ν} {entry : κ × ν} {list : List (κ × ν)}
    (member : entry ∈ place key value list) : entry = (key, value) ∨ entry ∈ list := by
  induction list with
  | nil => simpa [place] using member
  | cons head rest induction =>
      obtain ⟨other, old⟩ := head
      simp only [place] at member
      split at member
      · simpa using member
      · split at member
        · rcases List.mem_cons.mp member with same | inRest
          · exact Or.inr (by simp [same])
          · exact (induction inRest).imp id (List.mem_cons_of_mem _)
        · rcases List.mem_cons.mp member with same | inRest
          · exact Or.inl same
          · exact Or.inr (List.mem_cons_of_mem _ inRest)

theorem pairwise_place {key : κ} {value : ν} {list : List (κ × ν)}
    (increasing : list.Pairwise fun first second => first.1 < second.1) :
    (place key value list).Pairwise fun first second => first.1 < second.1 := by
  induction list with
  | nil => simp [place]
  | cons head rest induction =>
      obtain ⟨other, old⟩ := head
      obtain ⟨below, tail⟩ := List.pairwise_cons.mp increasing
      simp only [place]
      split
      · rename_i before
        refine List.pairwise_cons.mpr ⟨?_, increasing⟩
        intro entry member
        rcases List.mem_cons.mp member with rfl | member
        · exact before
        · exact Std.lt_trans before (below entry member)
      · split
        · rename_i after
          refine List.pairwise_cons.mpr ⟨?_, induction tail⟩
          intro entry member
          rcases key_of_mem_place member with rfl | member
          · exact after
          · exact below entry member
        · rename_i notBefore notAfter
          have same := key_eq_of_not_lt notBefore notAfter
          subst same
          exact List.pairwise_cons.mpr ⟨below, tail⟩

def insert (map : OrderedMap κ ν) (key : κ) (value : ν) : OrderedMap κ ν :=
  ⟨place key value map.entries, pairwise_place map.increasing⟩

/-- The map of a list of entries; of two entries with one key the later stands. -/
def ofList (entries : List (κ × ν)) : OrderedMap κ ν :=
  entries.foldl (fun map entry => map.insert entry.1 entry.2) empty

variable [DecidableEq κ]

/-- Insertion changes the answer at its key alone. -/
@[simp] theorem get?_insert {map : OrderedMap κ ν} {key other : κ} {value : ν} :
    (map.insert key value).get? other = if other = key then some value else map.get? other := by
  show find other (place key value map.entries) = if other = key then some value
    else find other map.entries
  generalize map.entries = list
  induction list with
  | nil => rfl
  | cons head rest induction =>
      obtain ⟨first, old⟩ := head
      simp only [place]
      split
      · rfl
      · split
        · rename_i after
          simp only [find]
          split
          · rename_i same
            subst same
            have different : other ≠ key := fun same => Std.lt_irrefl (same ▸ after)
            simp [different]
          · exact induction
        · rename_i notBefore notAfter
          have same := key_eq_of_not_lt notBefore notAfter
          subst same
          simp only [find]
          split <;> rfl

end Linear

end OrderedMap

end TagPolicy
