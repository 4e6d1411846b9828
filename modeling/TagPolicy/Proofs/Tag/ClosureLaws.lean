import TagPolicy.Proofs.Tag.Listing

/-!
Closing sets of tags. The closure of an id is the way up from its tag, and the deeper the tag stands
the more members it has; the closure of a set is what the closures of its members have. Closing sets
is a closure operator, except that ids that no tag has are dropped.
-/

namespace TagPolicy

open Relation (ReflTransGen)

/-- What closing sets does, where some ids are known. -/
structure ClosureLaws (known : TagId → Prop) (close : TagSet → TagSet) : Prop where
  extensive : ∀ ids, ∀ id ∈ ids, known id → id ∈ close ids
  monotone : ∀ ids more, (∀ id ∈ ids, id ∈ more) → ∀ id ∈ close ids, id ∈ close more
  idempotent : ∀ ids, close (close ids) = close ids
  union : ∀ ids more, close (ids ∪ more) = close ids ∪ close more

namespace TagTree

open Tag (HasParent)

variable {tags : List Tag} {tree : TagTree} {tag : Tag} {id other : TagId} {ids more : TagSet}

theorem closure_of_mono (within : ∀ id ∈ ids, id ∈ more) (inside : other ∈ tree.closureOf ids) :
    other ∈ tree.closureOf more := by
  obtain ⟨id, member, reached⟩ := mem_closure_of.mp inside
  exact mem_closure_of.mpr ⟨id, within id member, reached⟩

theorem closure_of_union (tree : TagTree) (ids more : TagSet) :
    tree.closureOf (ids ∪ more) = tree.closureOf ids ∪ tree.closureOf more := by
  apply OrderedSet.ext
  intro other
  rw [OrderedSet.mem_union, mem_closure_of, mem_closure_of, mem_closure_of, ← exists_or]
  refine exists_congr fun id => ?_
  rw [OrderedSet.mem_union, or_and_right]

theorem mem_closure_self (inside : tag ∈ tree.tags) : tag.id ∈ tree.closure tag.id :=
  mem_closure.mpr ⟨tag, inside, rfl, tag, .refl, rfl⟩

/-- The way up from a tag that is met on a way up is the rest of that way. -/
theorem mem_closure_trans (reached : other ∈ tree.closure id) {last : TagId}
    (onward : last ∈ tree.closure other) : last ∈ tree.closure id := by
  obtain ⟨tag, inside, same, middle, leads, rfl⟩ := mem_closure.mp reached
  obtain ⟨again, present, named, above, climbs, rfl⟩ := mem_closure.mp onward
  have listed := Tag.mem_of_reaches inside leads
  cases Tag.eq_of_id_eq tree.distinct present listed named
  exact mem_closure.mpr ⟨tag, inside, same, above, leads.trans climbs, rfl⟩

theorem closure_of_idempotent (tree : TagTree) (ids : TagSet) :
    tree.closureOf (tree.closureOf ids) = tree.closureOf ids := by
  apply OrderedSet.ext
  intro other
  constructor
  · intro inside
    obtain ⟨middle, again, onward⟩ := mem_closure_of.mp inside
    obtain ⟨id, member, reached⟩ := mem_closure_of.mp again
    exact mem_closure_of.mpr ⟨id, member, mem_closure_trans reached onward⟩
  · intro inside
    obtain ⟨id, member, reached⟩ := mem_closure_of.mp inside
    obtain ⟨tag, listed, rfl, above, leads, rfl⟩ := mem_closure.mp reached
    have present := mem_closure_self (Tag.mem_of_reaches listed leads)
    exact mem_closure_of.mpr ⟨above.id, inside, present⟩

theorem closure_laws (tree : TagTree) :
    ClosureLaws (fun id => ∃ tag ∈ tree.tags, tag.id = id) tree.closureOf where
  extensive := by
    rintro ids _ member ⟨tag, inside, rfl⟩
    exact mem_closure_of.mpr ⟨tag.id, member, mem_closure_self inside⟩
  monotone := fun _ _ within _ => closure_of_mono within
  idempotent := tree.closure_of_idempotent
  union := tree.closure_of_union

theorem closure_of_unknown (unknown : ∀ tag ∈ tree.tags, tag.id ≠ id) :
    tree.closure id = .empty := by
  apply OrderedSet.ext
  intro other
  refine iff_of_false ?_ (OrderedSet.not_mem_empty other)
  intro reached
  obtain ⟨tag, inside, same, -⟩ := mem_closure.mp reached
  exact unknown tag inside same

/-- The closure of an id has this id, if it is known, and those of its ancestors in the list, and
nothing else; a tag is listed at the depth that is one less than the size of its closure. The
closure of a set is that of its members, and obeys the laws of a closure operator. -/
theorem closure_exact (built : build tags = .ok tree) :
    (∀ id other, other ∈ tree.closure id ↔
      ∃ tag ∈ tags, tag.id = id ∧
        ∃ above, ReflTransGen (HasParent tags) tag above ∧ above.id = other) ∧
    (∀ id, (∀ tag ∈ tags, tag.id ≠ id) → tree.closure id = .empty) ∧
    (∀ tag depth, (tag, depth) ∈ tree.depthFirst ↔
      tag ∈ tags ∧ (tree.closure tag.id).size = depth + 1) ∧
    (∀ ids other, other ∈ tree.closureOf ids ↔ ∃ id ∈ ids, other ∈ tree.closure id) ∧
    ClosureLaws (fun id => ∃ tag ∈ tags, tag.id = id) tree.closureOf := by
  have same : ∀ tag, tag ∈ tree.tags ↔ tag ∈ tags := fun _ => mem_tags built
  refine ⟨?_, ?_, ?_, fun _ _ => mem_closure_of, ?_⟩
  · intro id other
    simp only [mem_closure, same, parents_of_build built]
  · intro id unknown
    exact closure_of_unknown fun tag inside => unknown tag ((same tag).mp inside)
  · intro tag depth
    rw [mem_depth_first_iff, stands_iff, size_closure, same]
  · simpa only [same] using tree.closure_laws

/-- The parent `9` of one of the tags is not listed, so nothing is known of it. -/
theorem sample_forest_closed :
    build sampleForest = .ok sampleTree ∧
      1 ∈ sampleTree.closure 4 ∧
      sampleTree.closure 9 = .empty ∧
      (⟨4, "row-b", some 2⟩, 2) ∈ sampleTree.depthFirst ∧
      (sampleTree.closureOf (.ofList [4, 9, 5])).toList = [1, 2, 4, 5] ∧
      sampleTree.closureOf (sampleTree.closureOf (.ofList [4, 9, 5])) =
        sampleTree.closureOf (.ofList [4, 9, 5]) := by
  have built : build sampleForest = .ok sampleTree := sampleTree.build_tags
  obtain ⟨reached, unknown, depths, -, laws⟩ := closure_exact built
  have row : HasParent sampleForest ⟨4, "row-b", some 2⟩ ⟨2, "dc-east", some 1⟩ := ⟨by decide, rfl⟩
  have east : HasParent sampleForest ⟨2, "dc-east", some 1⟩ ⟨1, "location", none⟩ :=
    ⟨by decide, rfl⟩
  refine ⟨built, ?_, unknown 9 (by decide), ?_, by decide, laws.idempotent _⟩
  · exact (reached 4 1).mpr ⟨_, by decide, rfl, _, .tail (.single row) east, rfl⟩
  · exact (depths _ 2).mpr ⟨by decide, by decide⟩

end TagTree

end TagPolicy
