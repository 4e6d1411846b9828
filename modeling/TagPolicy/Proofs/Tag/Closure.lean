import TagPolicy.Proofs.Tag.Building

/-!
What the closure of tags holds. Going up from a tag meets the tag and its ancestors and nothing else,
so a closure is known from the list that the tree was built of, without the tree. The ids of a set
are told apart from their names here: a set may hold ids that the tree does not know, and these have
no name.
-/

namespace TagPolicy

open Relation (ReflTransGen)

namespace Tag

variable {tags path : List Tag} {tag above : Tag} {limit : Nat}

theorem mem_of_reaches (inside : tag ∈ tags) (leads : ReflTransGen (HasParent tags) tag above) :
    above ∈ tags := by
  cases leads with
  | refl => exact inside
  | tail _ last => exact last.1

theorem mem_ascend (distinct : (tags.map Tag.id).Nodup) (found : ascend tags limit tag = some path) :
    above ∈ path ↔ ReflTransGen (HasParent tags) tag above := by
  induction limit generalizing tag path with
  | zero => cases found
  | succ limit induction =>
      have parents : ∀ parent, HasParent tags tag parent ↔ tag.parentIn tags = some parent :=
        fun parent => (parent_in_eq_some distinct).symm
      rw [ReflTransGen.cases_head_iff, eq_comm]
      simp only [parents]
      rw [ascend] at found
      split at found
      · rename_i root
        cases found
        simp [root]
      · rename_i parent up
        obtain ⟨rest, goesOn, rfl⟩ := Option.map_eq_some_iff.mp found
        rw [List.mem_cons, induction goesOn]
        simp [up]

end Tag

namespace TagTree

open Tag (HasParent Lawful mem_ascend mem_of_reaches)

variable {tags : List Tag} {tree : TagTree} {tag : Tag} {id other : TagId} {ids : TagSet}
  {name : String}

theorem get_eq_some : tree.get? id = some tag ↔ tag ∈ tree.tags ∧ tag.id = id :=
  Tag.find_eq_some tree.distinct

theorem known_iff : (tree.get? id).isSome = true ↔ ∃ tag ∈ tree.tags, tag.id = id := by
  rw [Option.isSome_iff_exists]
  simp only [get_eq_some]

theorem mem_ancestry {above : Tag} :
    above ∈ tree.ancestry id ↔
      ∃ tag ∈ tree.tags, tag.id = id ∧ ReflTransGen (HasParent tree.tags) tag above := by
  rw [ancestry]
  cases known : tree.get? id with
  | none =>
      constructor
      · intro inside
        cases inside
      · rintro ⟨tag, inside, same, -⟩
        rw [get_eq_some.mpr ⟨inside, same⟩] at known
        cases known
  | some tag =>
      obtain ⟨inside, same⟩ := get_eq_some.mp known
      obtain ⟨path, found⟩ := Option.isSome_iff_exists.mp (tree.rooted tag inside)
      have whole : Tag.ascend tree.tags tree.size tag = some path := found
      rw [Option.bind_some, whole, Option.getD_some, mem_ascend tree.distinct found]
      constructor
      · intro leads
        exact ⟨tag, inside, same, leads⟩
      · rintro ⟨again, present, named, leads⟩
        rw [Tag.eq_of_id_eq tree.distinct inside present (same.trans named.symm)]
        exact leads

theorem mem_closure :
    other ∈ tree.closure id ↔
      ∃ tag ∈ tree.tags, tag.id = id ∧
        ∃ above, ReflTransGen (HasParent tree.tags) tag above ∧ above.id = other := by
  rw [closure, OrderedSet.mem_ofList, List.mem_map]
  simp only [mem_ancestry]
  constructor
  · rintro ⟨above, ⟨tag, inside, same, leads⟩, named⟩
    exact ⟨tag, inside, same, above, leads, named⟩
  · rintro ⟨tag, inside, same, above, leads, named⟩
    exact ⟨above, ⟨tag, inside, same, leads⟩, named⟩

theorem mem_joined {list : List TagId} {found : TagSet} :
    other ∈ list.foldl (fun found id => found ∪ tree.closure id) found ↔
      other ∈ found ∨ ∃ id ∈ list, other ∈ tree.closure id := by
  induction list generalizing found with
  | nil => simp
  | cons id list induction =>
      rw [List.foldl_cons, induction, OrderedSet.mem_union, or_assoc, List.exists_mem_cons_iff]

theorem mem_closure_of : other ∈ tree.closureOf ids ↔ ∃ id ∈ ids, other ∈ tree.closure id := by
  rw [closureOf, mem_joined]
  simp only [OrderedSet.not_mem_empty, false_or]
  rfl

theorem mem_names : name ∈ tree.names ids ↔ ∃ tag ∈ tree.tags, tag.id ∈ ids ∧ tag.name = name := by
  rw [names, List.mem_filterMap]
  simp only [nameOf?, Option.map_eq_some_iff, get_eq_some]
  constructor
  · rintro ⟨id, member, tag, ⟨inside, rfl⟩, named⟩
    exact ⟨tag, inside, member, named⟩
  · rintro ⟨tag, inside, member, named⟩
    exact ⟨tag.id, member, tag, ⟨inside, rfl⟩, named⟩

section Built

variable (built : build tags = .ok tree)

include built

theorem mem_tags : tag ∈ tree.tags ↔ tag ∈ tags := by rw [tags_of_build built]

theorem lawful_of_build : Lawful tags := ((build_outcomes tags).1.mp ⟨tree, built⟩).1

theorem parents_of_build : HasParent tree.tags = HasParent tags := by rw [tags_of_build built]

/-- The closure of a set is what is met on the ways up from its members. -/
theorem mem_closure_of_built :
    other ∈ tree.closureOf ids ↔
      ∃ tag ∈ tags, tag.id ∈ ids ∧
        ∃ above, ReflTransGen (HasParent tags) tag above ∧ above.id = other := by
  rw [mem_closure_of]
  simp only [mem_closure, mem_tags built, parents_of_build built]
  constructor
  · rintro ⟨id, member, tag, inside, rfl, leads⟩
    exact ⟨tag, inside, member, leads⟩
  · rintro ⟨tag, inside, member, leads⟩
    exact ⟨tag.id, member, tag, inside, rfl, leads⟩

theorem mem_names_built :
    name ∈ tree.names ids ↔ ∃ tag ∈ tags, tag.id ∈ ids ∧ tag.name = name := by
  rw [mem_names]
  simp only [mem_tags built]

/-- The names of a closure are those of the tags that are met, since no id has two names. -/
theorem mem_names_closure_of :
    name ∈ tree.names (tree.closureOf ids) ↔
      ∃ tag ∈ tags, tag.id ∈ ids ∧
        ∃ above, ReflTransGen (HasParent tags) tag above ∧ above.name = name := by
  rw [mem_names_built built]
  simp only [mem_closure_of_built built]
  constructor
  · rintro ⟨met, listed, ⟨tag, inside, member, above, leads, same⟩, named⟩
    have isMet : above = met :=
      Tag.eq_of_id_eq (lawful_of_build built).ids (mem_of_reaches inside leads) listed same
    subst isMet
    exact ⟨tag, inside, member, above, leads, named⟩
  · rintro ⟨tag, inside, member, above, leads, named⟩
    exact ⟨above, mem_of_reaches inside leads, ⟨tag, inside, member, above, leads, rfl⟩, named⟩

end Built

end TagTree

end TagPolicy
