import TagPolicy.Proofs.Tag.CycleReport
import TagPolicy.Proofs.Tag.Listing

/-!
Lists of the same tags in different orders. A tree keeps the order of its list, and the traversal from
the roots meets the tags in another order, but nothing that a tree is asked depends on it: a look-up
finds the one tag that has the key, siblings are put in the order of their names, every tag is reached
at its own depth, and there is one report of a cycle.
-/

namespace TagPolicy

/-- Looking up a key does not depend on the order, if no two items have the same. -/
theorem find_keyed_congr {α κ : Type} [DecidableEq κ] {items others : List α} {of : α → κ}
    (distinct : (items.map of).Nodup) (same : others.Perm items) (key : κ) :
    (others.find? fun item => of item = key) = items.find? fun item => of item = key := by
  apply Option.ext
  intro item
  rw [find_keyed distinct, find_keyed ((same.map of).nodup_iff.mpr distinct), same.mem_iff]

namespace Tag

variable {tags other : List Tag} {tag : Tag} {depth : Nat}

/-- Tags with distinct names are in order in one way. -/
theorem in_name_order_congr (names : (tags.map Tag.name).Nodup) (same : other.Perm tags) :
    inNameOrder other = inNameOrder tags := by
  have otherNames := (same.map Tag.name).nodup_iff.mpr names
  have sorted : (inNameOrder other).Perm (inNameOrder tags) :=
    (in_name_order_perm other).trans (same.trans (in_name_order_perm tags).symm)
  apply sorted.eq_of_pairwise _ (in_name_order_pairwise otherNames) (in_name_order_pairwise names)
  intro first second _ _ before after
  exact absurd (Std.lt_trans before after) Std.lt_irrefl

/-- Siblings of either list are put in the same order. -/
theorem siblings_congr (names : (tags.map Tag.name).Nodup) (same : other.Perm tags)
    (sibling : Tag → Bool) :
    inNameOrder (other.filter sibling) = inNameOrder (tags.filter sibling) :=
  in_name_order_congr (names.sublist (List.filter_sublist.map Tag.name)) (same.filter sibling)

theorem Stands.congr (same : other.Perm tags) (stands : Stands other depth tag) :
    Stands tags depth tag := by
  have parents := has_parent_congr same
  induction stands with
  | root inside top => exact .root (same.mem_iff.mp inside) (parents ▸ top)
  | child inside up _ induction => exact .child (same.mem_iff.mp inside) (parents ▸ up) induction

section Distinct

variable (distinct : (tags.map Tag.id).Nodup) (same : other.Perm tags)

include distinct same

theorem find_congr (id : TagId) : find? other id = find? tags id :=
  find_keyed_congr distinct same id

theorem parent_in_congr (tag : Tag) : tag.parentIn other = tag.parentIn tags := by
  rw [parentIn, parentIn, funext (find_congr distinct same)]

theorem ascend_congr (limit : Nat) (tag : Tag) : ascend other limit tag = ascend tags limit tag := by
  induction limit generalizing tag with
  | zero => rfl
  | succ limit induction =>
      rw [ascend, ascend, parent_in_congr distinct same]
      cases tag.parentIn tags with
      | none => rfl
      | some parent => exact congrArg (Option.map _) (induction parent)

/-- The traversals reach the same tags at the same depths, in whatever order. -/
theorem reached_perm : (reached other).Perm (reached tags) := by
  have otherDistinct := (same.map Tag.id).nodup_iff.mpr distinct
  have apart := (nodup_reached distinct).of_map Prod.fst
  have otherApart := (nodup_reached otherDistinct).of_map Prod.fst
  refine (List.perm_ext_iff_of_nodup otherApart apart).mpr ?_
  rintro ⟨tag, depth⟩
  rw [mem_reached distinct, mem_reached otherDistinct]
  exact ⟨Stands.congr same, Stands.congr same.symm⟩

theorem depth_in_congr (tag : Tag) : depthIn (reached other) tag = depthIn (reached tags) tag := by
  rw [depthIn, depthIn,
    find_keyed_congr (nodup_reached_ids distinct) (reached_perm distinct same) tag.id]

/-- The cycle that is reported is the only one that can be. -/
theorem cycle_names_congr (cyclic : ¬ Acyclic tags) : cycleNames other = cycleNames tags := by
  have otherDistinct := (same.map Tag.id).nodup_iff.mpr distinct
  obtain ⟨least, others, reported, names⟩ := cycle_names_reported distinct cyclic
  obtain ⟨found, rest, otherReported, otherNames⟩ :=
    cycle_names_reported otherDistinct (mt (acyclic_congr same).mp cyclic)
  obtain ⟨rfl, rfl⟩ := reported.unique distinct (otherReported.congr same)
  rw [names, otherNames]

end Distinct

end Tag

namespace TagTree

open Tag (Acyclic HasParent Lawful acyclic_congr acyclic_iff_rooted lawful_congr)

variable {tags other : List Tag} {left right : TagTree}

/-- Two trees answer every question alike. -/
structure Agrees (left right : TagTree) : Prop where
  get : ∀ id, left.get? id = right.get? id
  getNamed : ∀ name, left.getNamed? name = right.getNamed? name
  parentOf : ∀ id, left.parentOf? id = right.parentOf? id
  roots : left.roots = right.roots
  children : ∀ id, left.children id = right.children id
  depthFirst : left.depthFirst = right.depthFirst
  closure : ∀ id, left.closure id = right.closure id
  closureOf : ∀ ids, left.closureOf ids = right.closureOf ids
  names : ∀ ids, left.names ids = right.names ids

theorem unstack_congr (children : ∀ id, left.children id = right.children id) (limit : Nat)
    (stack : List Tag) : left.unstack limit stack = right.unstack limit stack := by
  induction limit generalizing stack with
  | zero => rfl
  | succ limit induction =>
      cases stack with
      | nil => rfl
      | cons tag stack => rw [unstack, unstack, children, induction]

theorem agrees_of_perm (same : left.tags.Perm right.tags) : left.Agrees right := by
  have get : ∀ id, left.get? id = right.get? id := Tag.find_congr right.distinct same
  have parents := Tag.parent_in_congr right.distinct same
  have size : left.size = right.size := same.length_eq
  have roots : left.roots = right.roots := by
    have rootless : (fun tag : Tag => (tag.parentIn left.tags).isNone) =
        fun tag => (tag.parentIn right.tags).isNone := by
      funext tag
      rw [parents]
    rw [TagTree.roots, TagTree.roots, Tag.roots, Tag.roots, rootless]
    exact Tag.siblings_congr right.distinctNames same _
  have children : ∀ id, left.children id = right.children id := by
    intro id
    rw [TagTree.children, TagTree.children, get, Tag.childrenOf, Tag.childrenOf,
      Tag.siblings_congr right.distinctNames same]
  have ancestry : ∀ id, left.ancestry id = right.ancestry id := by
    intro id
    rw [TagTree.ancestry, TagTree.ancestry, get, size,
      funext (Tag.ascend_congr right.distinct same right.size)]
  have closure : ∀ id, left.closure id = right.closure id := by
    intro id
    rw [TagTree.closure, TagTree.closure, ancestry]
  refine ⟨get, ?_, ?_, roots, children, ?_, closure, ?_, ?_⟩
  · exact find_keyed_congr right.distinctNames same
  · intro id
    rw [parentOf?, parentOf?, get, funext parents]
  · rw [depthFirst, depthFirst, size, roots, unstack_congr children]
    exact List.map_congr_left fun tag _ =>
      congrArg (Prod.mk tag) (Tag.depth_in_congr right.distinct same tag)
  · intro ids
    rw [closureOf, closureOf, funext closure]
  · intro ids
    have named : left.nameOf? = right.nameOf? := by
      funext id
      rw [nameOf?, nameOf?, get]
    rw [names, names, named]

/-- There is a tree exactly for distinct ids, distinct names, none of them reserved, and parents that
never lead around; it keeps the list, and the tags without a listed parent are its roots. If one of
the first three conditions fails, that is reported, and otherwise a cycle is. The traversal that tells
has come to its end. Tags listed in another order have a tree that answers every question alike, or
the same report of a cycle, or some fault of the first kind. -/
theorem build_exact (tags : List Tag) :
    (((∃ tree, build tags = .ok tree) ↔ Lawful tags ∧ Acyclic tags) ∧
      ((∃ fault, build tags = .error (.invalid fault)) ↔ ¬ Lawful tags) ∧
        ((∃ names, build tags = .error (.cycle names)) ↔ Lawful tags ∧ ¬ Acyclic tags)) ∧
      (Lawful tags → ∀ extra, Tag.sweep tags (tags.length + extra)
        ((Tag.roots tags).map fun root => (root, 0)) = Tag.reached tags) ∧
      (∀ tree, build tags = .ok tree →
        tree.tags = tags ∧
          ∀ tag, tag ∈ tree.roots ↔ tag ∈ tags ∧ ∀ parent, ¬ HasParent tags tag parent) ∧
        ∀ other, other.Perm tags →
          (∀ tree, build tags = .ok tree →
            ∃ otherTree, build other = .ok otherTree ∧ otherTree.Agrees tree) ∧
            (∀ names, build tags = .error (.cycle names) →
              build other = .error (.cycle names)) ∧
              ∀ fault, build tags = .error (.invalid fault) →
                ∃ otherFault, build other = .error (.invalid otherFault) := by
  obtain ⟨succeeds, refuses, circles⟩ := build_outcomes tags
  refine ⟨⟨succeeds, refuses, circles⟩, fun lawful => Tag.sweep_ends lawful.ids, ?_, ?_⟩
  · intro tree built
    refine ⟨tags_of_build built, fun tag => ?_⟩
    rw [mem_roots_iff, tags_of_build built]
  · intro other same
    refine ⟨?_, ?_, ?_⟩
    · intro tree built
      obtain ⟨lawful, acyclic⟩ := succeeds.mp ⟨tree, built⟩
      obtain ⟨otherTree, otherBuilt, kept⟩ :=
        build_of_acyclic ((lawful_congr same).mpr lawful) ((acyclic_congr same).mpr acyclic)
      refine ⟨otherTree, otherBuilt, agrees_of_perm ?_⟩
      rw [kept, tags_of_build built]
      exact same
    · intro names reported
      obtain ⟨lawful, cyclic⟩ := circles.mp ⟨names, reported⟩
      rw [build_of_cyclic ((lawful_congr same).mpr lawful) (mt (acyclic_congr same).mp cyclic),
        Tag.cycle_names_congr lawful.ids same cyclic, ← build_of_cyclic lawful cyclic, reported]
    · intro fault refused
      exact build_of_lawless (mt (lawful_congr same).mp (refuses.mp ⟨fault, refused⟩))

def loopedTags : List Tag := [⟨7, "low", some 4⟩, ⟨5, "odd", some 4⟩, ⟨4, "even", some 5⟩]

theorem build_looped_tags :
    build loopedTags = .error (.cycle ["even", "odd", "even"]) := by
  have lawful : Lawful loopedTags := ⟨by decide, by decide, by decide⟩
  have cyclic : ¬ Acyclic loopedTags := by
    rw [acyclic_iff_rooted lawful.ids]
    decide
  have names : Tag.cycleNames loopedTags = ["even", "odd", "even"] := by decide
  rw [build_of_cyclic lawful cyclic, names]

theorem sample_and_loop_in_any_order :
    (∃ tree, build sampleForest.reverse = .ok tree ∧ tree.Agrees sampleTree ∧
      ⟨5, "hw", some 9⟩ ∈ tree.roots) ∧
        Tag.sweep sampleForest 9 ((Tag.roots sampleForest).map fun root => (root, 0)) =
          Tag.reached sampleForest ∧
        build loopedTags.reverse = .error (.cycle ["even", "odd", "even"]) := by
  obtain ⟨-, ends, -, reordered⟩ := build_exact sampleForest
  obtain ⟨tree, built, agrees⟩ :=
    (reordered _ (List.reverse_perm _)).1 sampleTree sampleTree.build_tags
  obtain ⟨-, -, -, sameLoop⟩ := build_exact loopedTags
  refine ⟨⟨tree, built, agrees, ?_⟩, ends sampleTree.lawful 3,
    (sameLoop _ (List.reverse_perm _)).2.1 _ build_looped_tags⟩
  rw [agrees.roots]
  decide

end TagTree

end TagPolicy
