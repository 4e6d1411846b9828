import TagPolicy.Proofs.Tag.Sweep
import TagPolicy.Tag.Tree

/-!
Which lists of tags have a tree. A list has one exactly if its ids and names are distinct, no name is
reserved, and no tag is above itself. The tree holds the listed tags as they were listed.
-/

namespace TagPolicy

namespace Tag

/-- What is asked of tags without regard to their parents. -/
structure Lawful (tags : List Tag) : Prop where
  ids : (tags.map Tag.id).Nodup
  names : (tags.map Tag.name).Nodup
  unreserved : ∀ tag ∈ tags, tag.name.toList.head? ≠ some '$'

variable {tags other seen : List Tag}

theorem lawful_congr (same : other.Perm tags) : Lawful other ↔ Lawful tags := by
  have ids := (same.map Tag.id).nodup_iff
  have names := (same.map Tag.name).nodup_iff
  constructor
  · rintro ⟨distinct, apart, unreserved⟩
    exact ⟨ids.mp distinct, names.mp apart, fun tag inside => unreserved tag (same.mem_iff.mpr inside)⟩
  · rintro ⟨distinct, apart, unreserved⟩
    exact ⟨ids.mpr distinct, names.mpr apart, fun tag inside => unreserved tag (same.mem_iff.mp inside)⟩

theorem is_automatic_name_eq_false {name : String} :
    isAutomaticName name = false ↔ name.toList.head? ≠ some '$' := by
  rw [isAutomaticName, automaticMark, beq_eq_false_iff_ne]

theorem first_fault_eq_none (lawful : Lawful tags)
    (freshIds : ∀ tag ∈ tags, tag.id ∉ seen.map Tag.id)
    (freshNames : ∀ tag ∈ tags, tag.name ∉ seen.map Tag.name) : firstFault seen tags = none := by
  induction tags generalizing seen with
  | nil => rfl
  | cons tag rest induction =>
      obtain ⟨ids, names, unreserved⟩ := lawful
      obtain ⟨otherIds, ids⟩ := List.nodup_cons.mp ids
      obtain ⟨otherNames, names⟩ := List.nodup_cons.mp names
      obtain ⟨plain, unreserved⟩ := List.forall_mem_cons.mp unreserved
      obtain ⟨freshId, freshIds⟩ := List.forall_mem_cons.mp freshIds
      obtain ⟨freshName, freshNames⟩ := List.forall_mem_cons.mp freshNames
      have allowed : tag.nameFault = none := by
        rw [nameFault, is_automatic_name_eq_false.mpr plain]
        rfl
      rw [firstFault, allowed]
      dsimp only
      rw [if_neg freshId, if_neg freshName]
      apply induction ⟨ids, names, unreserved⟩
      · intro later inside
        rw [List.map_cons, List.mem_cons, not_or]
        exact ⟨fun same => otherIds (same ▸ List.mem_map_of_mem inside), freshIds later inside⟩
      · intro later inside
        rw [List.map_cons, List.mem_cons, not_or]
        exact ⟨fun same => otherNames (same ▸ List.mem_map_of_mem inside), freshNames later inside⟩

theorem first_fault_eq_none_iff : firstFault [] tags = none ↔ Lawful tags := by
  constructor
  · intro sound
    obtain ⟨unreserved, ids, names, -, -⟩ := of_first_fault_eq_none sound
    exact ⟨ids, names, fun tag inside => is_automatic_name_eq_false.mp (unreserved tag inside)⟩
  · intro lawful
    exact first_fault_eq_none lawful (fun _ _ => List.not_mem_nil) fun _ _ => List.not_mem_nil

end Tag

namespace TagTree

open Tag (Acyclic HasParent Lawful acyclic_iff_rooted first_fault_eq_none_iff whole_iff_acyclic)

variable {tags : List Tag}

theorem eq_of_tags {left right : TagTree} (same : left.tags = right.tags) : left = right := by
  cases left
  cases right
  cases same
  rfl

theorem build_of_lawless (lawless : ¬ Lawful tags) :
    ∃ fault, build tags = .error (.invalid fault) := by
  unfold build
  split
  · rename_i fault _
    exact ⟨fault, rfl⟩
  · rename_i sound
    exact absurd (first_fault_eq_none_iff.mp sound) lawless

theorem build_of_acyclic (lawful : Lawful tags) (acyclic : Acyclic tags) :
    ∃ tree, build tags = .ok tree ∧ tree.tags = tags := by
  have whole := (whole_iff_acyclic lawful.ids).mpr acyclic
  unfold build
  split
  · rename_i fault sound
    rw [first_fault_eq_none_iff.mpr lawful] at sound
    cases sound
  · rw [dif_pos whole]
    exact ⟨_, rfl, rfl⟩

theorem build_of_cyclic (lawful : Lawful tags) (cyclic : ¬ Acyclic tags) :
    build tags = .error (.cycle (Tag.cycleNames tags)) := by
  have cut := mt (whole_iff_acyclic lawful.ids).mp cyclic
  unfold build
  split
  · rename_i fault sound
    rw [first_fault_eq_none_iff.mpr lawful] at sound
    cases sound
  · rw [dif_neg cut]

theorem acyclic (tree : TagTree) : Acyclic tree.tags :=
  (whole_iff_acyclic tree.distinct).mp tree.whole

/-- Above every tag of a tree there is one without a parent. -/
theorem rooted (tree : TagTree) : ∀ tag ∈ tree.tags, tag.isRooted tree.tags = true :=
  (acyclic_iff_rooted tree.distinct).mp tree.acyclic

theorem lawful (tree : TagTree) : Lawful tree.tags where
  ids := tree.distinct
  names := tree.distinctNames
  unreserved := fun tag inside => Tag.is_automatic_name_eq_false.mp (tree.unreserved tag inside)

/-- A tree is built of its tags. -/
theorem build_tags (tree : TagTree) : build tree.tags = .ok tree := by
  obtain ⟨found, built, same⟩ := build_of_acyclic tree.lawful tree.acyclic
  rw [built, eq_of_tags same]

/-- The three outcomes exclude each other, so each of them has exactly its condition. -/
theorem build_outcomes (tags : List Tag) :
    ((∃ tree, build tags = .ok tree) ↔ Lawful tags ∧ Acyclic tags) ∧
      ((∃ fault, build tags = .error (.invalid fault)) ↔ ¬ Lawful tags) ∧
        ((∃ names, build tags = .error (.cycle names)) ↔ Lawful tags ∧ ¬ Acyclic tags) := by
  by_cases lawful : Lawful tags
  · by_cases acyclic : Acyclic tags
    · obtain ⟨tree, built, -⟩ := build_of_acyclic lawful acyclic
      simp [built, lawful, acyclic]
    · simp [build_of_cyclic lawful acyclic, lawful, acyclic]
  · obtain ⟨fault, refused⟩ := build_of_lawless lawful
    simp [refused, lawful]

theorem tags_of_build {tree : TagTree} (built : build tags = .ok tree) : tree.tags = tags := by
  obtain ⟨lawful, acyclic⟩ := (build_outcomes tags).1.mp ⟨tree, built⟩
  obtain ⟨found, finished, same⟩ := build_of_acyclic lawful acyclic
  rw [built] at finished
  cases finished
  exact same

theorem mem_roots_iff {tree : TagTree} {tag : Tag} :
    tag ∈ tree.roots ↔ tag ∈ tree.tags ∧ ∀ parent, ¬ HasParent tree.tags tag parent := by
  rw [roots, (Tag.in_name_order_perm _).mem_iff, Tag.mem_roots tree.distinct]

end TagTree

end TagPolicy
