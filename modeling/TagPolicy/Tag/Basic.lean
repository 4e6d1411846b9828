import TagPolicy.Ordered.Set

/-!
Tags as they are stored: an id, a name, and perhaps the id of a parent. Names that begin with a
dollar sign are kept for automatic tags.
-/

namespace TagPolicy

abbrev TagId := UInt32

abbrev TagSet := OrderedSet TagId

structure Tag where
  id : TagId
  name : String
  parent : Option TagId
deriving DecidableEq, Repr

def automaticMark : Char := '$'

def isAutomaticName (name : String) : Bool := name.toList.head? == some automaticMark

inductive TagFault
  | reservedName (name : String)
  | duplicateId (id : TagId)
  | duplicateName (name : String)
deriving DecidableEq, Repr

def TagFault.message : TagFault → String
  | .reservedName name =>
      "tag name `" ++ name ++ "` starts with `$`, which is reserved for automatic tags"
  | .duplicateId id => s!"duplicate tag id {id.toNat}"
  | .duplicateName name => "duplicate tag name `" ++ name ++ "`"

namespace Tag

def nameFault (tag : Tag) : Option TagFault :=
  if isAutomaticName tag.name then some (.reservedName tag.name) else none

def firstFault (seen : List Tag) : List Tag → Option TagFault
  | [] => none
  | tag :: rest =>
      match tag.nameFault with
      | some fault => some fault
      | none =>
          if tag.id ∈ seen.map Tag.id then some (.duplicateId tag.id)
          else if tag.name ∈ seen.map Tag.name then some (.duplicateName tag.name)
          else firstFault (tag :: seen) rest

/-- What a list without faults satisfies, besides the tags already seen. -/
theorem of_first_fault_eq_none {seen tags : List Tag} (sound : firstFault seen tags = none) :
    (∀ tag ∈ tags, isAutomaticName tag.name = false) ∧
      (tags.map Tag.id).Nodup ∧ (tags.map Tag.name).Nodup ∧
      (∀ tag ∈ tags, tag.id ∉ seen.map Tag.id) ∧ ∀ tag ∈ tags, tag.name ∉ seen.map Tag.name := by
  induction tags generalizing seen with
  | nil => simp
  | cons tag rest induction =>
      unfold firstFault nameFault at sound
      split at sound
      · cases sound
      · rename_i unreserved
        split at sound
        · cases sound
        · rename_i freshId
          split at sound
          · cases sound
          · rename_i freshName
            obtain ⟨names, ids, distinct, restIds, restNames⟩ := induction sound
            have plain : isAutomaticName tag.name = false := by
              cases automatic : isAutomaticName tag.name
              · rfl
              · simp [automatic] at unreserved
            refine ⟨?_, ?_, ?_, ?_, ?_⟩
            · simpa [plain] using names
            · refine List.nodup_cons.mpr ⟨?_, ids⟩
              intro inside
              obtain ⟨other, member, same⟩ := List.mem_map.mp inside
              exact restIds other member (by simp [same])
            · refine List.nodup_cons.mpr ⟨?_, distinct⟩
              intro inside
              obtain ⟨other, member, same⟩ := List.mem_map.mp inside
              exact restNames other member (by simp [same])
            · intro other member
              rcases List.mem_cons.mp member with rfl | member
              · exact freshId
              · exact fun inside => restIds other member (List.mem_cons_of_mem _ inside)
            · intro other member
              rcases List.mem_cons.mp member with rfl | member
              · exact freshName
              · exact fun inside => restNames other member (List.mem_cons_of_mem _ inside)

/-- The order of siblings: by name, and by id where the names are the same. -/
def notAfter (first second : Tag) : Bool :=
  decide (first.name < second.name ∨ first.name = second.name ∧ first.id ≤ second.id)

theorem name_lt_of_not_after {first second : Tag} (apart : first.name ≠ second.name) :
    (first.notAfter second = true → first.name < second.name) ∧
      (first.notAfter second = false → second.name < first.name) := by
  simp only [notAfter, apart, false_and, or_false, decide_eq_true_eq, decide_eq_false_iff_not]
  refine ⟨fun below => below, fun notBefore => ?_⟩
  rcases Std.le_total (a := first.name) (b := second.name) with below | above
  · exact absurd (Std.lt_of_le_of_ne below apart) notBefore
  · exact Std.lt_of_le_of_ne above (Ne.symm apart)

def insertInOrder (tag : Tag) : List Tag → List Tag
  | [] => [tag]
  | first :: rest =>
      if tag.notAfter first then tag :: first :: rest else first :: insertInOrder tag rest

theorem insert_in_order_perm (tag : Tag) (tags : List Tag) :
    (insertInOrder tag tags).Perm (tag :: tags) := by
  induction tags with
  | nil => exact .refl _
  | cons first rest induction =>
      rw [insertInOrder]
      split
      · exact .refl _
      · exact (induction.cons first).trans (.swap tag first rest)

theorem insert_in_order_pairwise {tag : Tag} {tags : List Tag}
    (fresh : ∀ other ∈ tags, tag.name ≠ other.name)
    (sorted : tags.Pairwise fun first second => first.name < second.name) :
    (insertInOrder tag tags).Pairwise fun first second => first.name < second.name := by
  induction tags with
  | nil => exact List.pairwise_singleton ..
  | cons first rest induction =>
      obtain ⟨apart, others⟩ := List.forall_mem_cons.mp fresh
      obtain ⟨least, ordered⟩ := List.pairwise_cons.mp sorted
      rw [insertInOrder]
      split
      · rename_i early
        have below := (name_lt_of_not_after apart).1 early
        refine List.pairwise_cons.mpr ⟨?_, sorted⟩
        exact List.forall_mem_cons.mpr
          ⟨below, fun other inside => Std.lt_trans below (least other inside)⟩
      · rename_i late
        have above := (name_lt_of_not_after apart).2 (Bool.eq_false_iff.mpr late)
        refine List.pairwise_cons.mpr ⟨?_, induction others ordered⟩
        intro other inside
        rcases List.mem_cons.mp ((insert_in_order_perm tag rest).mem_iff.mp inside) with rfl | inside
        · exact above
        · exact least other inside

def inNameOrder : List Tag → List Tag
  | [] => []
  | tag :: rest => insertInOrder tag (inNameOrder rest)

theorem in_name_order_perm (tags : List Tag) : (inNameOrder tags).Perm tags := by
  induction tags with
  | nil => exact .refl _
  | cons tag rest induction => exact (insert_in_order_perm tag _).trans (induction.cons tag)

theorem in_name_order_pairwise {tags : List Tag} (names : (tags.map Tag.name).Nodup) :
    (inNameOrder tags).Pairwise fun first second => first.name < second.name := by
  induction tags with
  | nil => exact .nil
  | cons tag rest induction =>
      obtain ⟨fresh, names⟩ := List.nodup_cons.mp names
      apply insert_in_order_pairwise _ (induction names)
      intro other inside same
      have listed := (in_name_order_perm rest).mem_iff.mp inside
      exact fresh (same ▸ List.mem_map_of_mem listed)

def find? (tags : List Tag) (id : TagId) : Option Tag := tags.find? fun tag => tag.id = id

/-- The parent of a tag among listed tags; a parent that is not listed is none. -/
def parentIn (tags : List Tag) (tag : Tag) : Option Tag := tag.parent.bind (find? tags)

/-- A tag and its ancestors, from the tag up, if a tag without a parent is among the first `limit`
of them. -/
def ascend (tags : List Tag) : Nat → Tag → Option (List Tag)
  | 0, _ => none
  | limit + 1, tag =>
      match tag.parentIn tags with
      | none => some [tag]
      | some parent => (ascend tags limit parent).map (tag :: ·)

end Tag

end TagPolicy
