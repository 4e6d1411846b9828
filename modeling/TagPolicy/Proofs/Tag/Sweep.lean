import TagPolicy.Proofs.Tag.Ancestry
import TagPolicy.Tag.Sweep

/-!
What the traversal from the roots reaches: the tags that stand some number of steps below a root,
each once and at that depth. `Queued` is what taking a tag off the queue preserves. A child is
queued when its parent is taken off and at no other time, so nothing is queued twice, and the queue
is empty when as many tags have been taken off as there are. The traversal reaches all tags exactly
if no tag is above itself.
-/

namespace TagPolicy.Tag

open Relation (ReflTransGen)

variable {tags path : List Tag} {tag child parent : Tag} {depth limit : Nat}

inductive Stands (tags : List Tag) : Nat → Tag → Prop
  | root {tag : Tag} : tag ∈ tags → (∀ parent, ¬ HasParent tags tag parent) → Stands tags 0 tag
  | child {depth : Nat} {child parent : Tag} :
      child ∈ tags → HasParent tags child parent → Stands tags depth parent →
        Stands tags (depth + 1) child

theorem Stands.mem (stands : Stands tags depth tag) : tag ∈ tags := by
  cases stands with
  | root inside _ => exact inside
  | child inside _ _ => exact inside

theorem Stands.below_root (stands : Stands tags depth tag) :
    ∃ root ∈ tags, ReflTransGen (HasParent tags) tag root ∧
      ∀ parent, ¬ HasParent tags root parent := by
  induction stands with
  | @root tag inside top => exact ⟨tag, inside, .refl, top⟩
  | child _ up _ induction =>
      obtain ⟨root, inside, leads, top⟩ := induction
      exact ⟨root, inside, .head up leads, top⟩

section Distinct

variable (distinct : (tags.map Tag.id).Nodup)

include distinct

theorem Stands.unique {other : Nat} (stands : Stands tags depth tag)
    (also : Stands tags other tag) : depth = other := by
  induction stands generalizing other with
  | root _ top =>
      cases also with
      | root => rfl
      | child _ up _ => exact absurd up (top _)
  | child _ up _ induction =>
      cases also with
      | root _ top => exact absurd up (top _)
      | child _ upAlso also =>
          cases has_parent_unique distinct up upAlso
          rw [induction also]

/-- A tag stands one step less below the root than there are tags on the way up. -/
theorem stands_of_ascend (inside : tag ∈ tags) (found : ascend tags limit tag = some path) :
    ∃ depth, path.length = depth + 1 ∧ Stands tags depth tag := by
  induction limit generalizing tag path with
  | zero => cases found
  | succ limit induction =>
      rw [ascend] at found
      split at found
      · rename_i top
        cases found
        refine ⟨0, rfl, .root inside fun parent up => ?_⟩
        rw [(parent_in_eq_some distinct).mpr up] at top
        cases top
      · rename_i parent above
        have up := (parent_in_eq_some distinct).mp above
        obtain ⟨rest, goesOn, rfl⟩ := Option.map_eq_some_iff.mp found
        obtain ⟨depth, length, stands⟩ := induction up.1 goesOn
        exact ⟨depth + 1, congrArg Nat.succ length, .child inside up stands⟩

theorem Stands.not_endless (stands : Stands tags depth tag) : ¬ Endless tags tag := by
  induction stands with
  | root _ top =>
      intro endless
      obtain ⟨parent, up, -⟩ := endless.up
      exact top parent up
  | child _ up _ induction =>
      intro endless
      obtain ⟨parent, also, onward⟩ := endless.up
      cases has_parent_unique distinct up also
      exact induction onward

theorem stands_iff_not_endless (inside : tag ∈ tags) :
    (∃ depth, Stands tags depth tag) ↔ ¬ Endless tags tag := by
  constructor
  · rintro ⟨depth, stands⟩
    exact stands.not_endless distinct
  · intro ends
    rw [endless_iff distinct inside, Bool.not_eq_false, isRooted, Option.isSome_iff_exists] at ends
    obtain ⟨path, found⟩ := ends
    obtain ⟨depth, -, stands⟩ := stands_of_ascend distinct inside found
    exact ⟨depth, stands⟩

end Distinct

theorem mem_children_of (inside : parent ∈ tags) :
    child ∈ childrenOf tags parent.id ↔ child ∈ tags ∧ HasParent tags child parent := by
  rw [childrenOf, List.mem_filter, decide_eq_true_eq, HasParent]
  simp only [inside, true_and]

section Traversal

variable {done queue : List (Tag × Nat)}

theorem mem_roots (distinct : (tags.map Tag.id).Nodup) :
    tag ∈ roots tags ↔ tag ∈ tags ∧ ∀ parent, ¬ HasParent tags tag parent := by
  rw [roots, List.mem_filter, Option.isNone_iff_eq_none, Option.eq_none_iff_forall_ne_some]
  simp only [ne_eq, parent_in_eq_some distinct]

/-- What is known of the tags that have been taken off a queue and of those that are in it. -/
structure Queued (tags : List Tag) (done queue : List (Tag × Nat)) : Prop where
  apart : ((done ++ queue).map Prod.fst).Nodup
  stand : ∀ entry ∈ done ++ queue, Stands tags entry.2 entry.1
  roots : ∀ root ∈ roots tags, (root, 0) ∈ done ++ queue
  /-- Nothing is queued before its parent is taken off. -/
  parents : ∀ entry ∈ done ++ queue, ∀ parent, HasParent tags entry.1 parent →
    parent ∈ done.map Prod.fst
  /-- Whatever is taken off has had its children queued. -/
  children : ∀ entry ∈ done, ∀ child ∈ childrenOf tags entry.1.id,
    (child, entry.2 + 1) ∈ done ++ queue

theorem Queued.length_le (queued : Queued tags done queue) :
    done.length + queue.length ≤ tags.length := by
  have listed : (done ++ queue).map Prod.fst ⊆ tags := by
    intro tag inside
    obtain ⟨entry, member, rfl⟩ := List.mem_map.mp inside
    exact (queued.stand entry member).mem
  have few := (List.subperm_of_subset queued.apart listed).length_le
  rwa [List.length_map, List.length_append] at few

variable (distinct : (tags.map Tag.id).Nodup)

include distinct

theorem queued_roots : Queued tags [] ((roots tags).map fun root => (root, 0)) := by
  have unchanged : ((roots tags).map fun root => (root, 0)).map Prod.fst = roots tags := by
    rw [List.map_map]
    exact List.map_id _
  have top : ∀ entry ∈ (roots tags).map fun root => (root, 0),
      entry.2 = 0 ∧ entry.1 ∈ tags ∧ ∀ parent, ¬ HasParent tags entry.1 parent := by
    rw [List.forall_mem_map]
    exact fun root inside => ⟨rfl, (mem_roots distinct).mp inside⟩
  constructor
  · rw [List.nil_append, unchanged]
    exact (distinct.of_map _).filter _
  · rintro ⟨root, depth⟩ inside
    obtain ⟨rfl, listed, free⟩ := top _ inside
    exact .root listed free
  · exact fun root inside => List.mem_map_of_mem inside
  · exact fun entry inside parent up => absurd up ((top entry inside).2.2 parent)
  · exact fun entry inside => absurd inside List.not_mem_nil

theorem Queued.step (queued : Queued tags done ((tag, depth) :: queue)) :
    Queued tags (done ++ [(tag, depth)])
      (queue ++ (childrenOf tags tag.id).map fun child => (child, depth + 1)) := by
  obtain ⟨apart, stand, roots, parents, children⟩ := queued
  have here : (tag, depth) ∈ done ++ (tag, depth) :: queue :=
    List.mem_append_right _ List.mem_cons_self
  have stands : Stands tags depth tag := stand _ here
  have notDone : tag ∉ done.map Prod.fst := by
    intro inside
    rw [List.map_append, List.nodup_append] at apart
    exact apart.2.2 tag inside tag List.mem_cons_self rfl
  have ofTag : ∀ child ∈ childrenOf tags tag.id, child ∈ tags ∧ HasParent tags child tag :=
    fun child inside => (mem_children_of stands.mem).mp inside
  have unchanged : ((childrenOf tags tag.id).map fun child => (child, depth + 1)).map Prod.fst =
      childrenOf tags tag.id := by
    rw [List.map_map]
    exact List.map_id _
  have regroup : done ++ [(tag, depth)] ++
      (queue ++ (childrenOf tags tag.id).map fun child => (child, depth + 1)) =
        (done ++ (tag, depth) :: queue) ++
          (childrenOf tags tag.id).map fun child => (child, depth + 1) := by
    rw [List.append_assoc, List.append_assoc, List.singleton_append, List.cons_append]
  constructor
  · rw [regroup, List.map_append, unchanged]
    refine List.nodup_append.mpr ⟨apart, (distinct.of_map _).filter _, ?_⟩
    rintro queuedTag inside child listed rfl
    obtain ⟨entry, member, rfl⟩ := List.mem_map.mp inside
    exact notDone (parents entry member tag (ofTag _ listed).2)
  · rw [regroup, List.forall_mem_append, List.forall_mem_map]
    refine ⟨stand, fun child listed => ?_⟩
    exact .child (ofTag child listed).1 (ofTag child listed).2 stands
  · intro root inside
    rw [regroup]
    exact List.mem_append_left _ (roots root inside)
  · rw [regroup, List.forall_mem_append, List.forall_mem_map, List.map_append]
    constructor
    · intro entry member parent up
      exact List.mem_append_left _ (parents entry member parent up)
    · intro child listed parent up
      cases has_parent_unique distinct up (ofTag child listed).2
      exact List.mem_append_right _ List.mem_cons_self
  · rw [regroup, List.forall_mem_append, List.forall_mem_singleton]
    constructor
    · intro entry member child listed
      exact List.mem_append_left _ (children entry member child listed)
    · intro child listed
      exact List.mem_append_right _ (List.mem_map_of_mem listed)

/-- The queue runs empty before the limit cuts anything off. -/
theorem Queued.sweep (queued : Queued tags done queue)
    (room : tags.length ≤ done.length + limit) :
    Queued tags (done ++ sweep tags limit queue) [] := by
  induction limit generalizing done queue with
  | zero =>
      have few := queued.length_le
      have empty : queue = [] := List.eq_nil_of_length_eq_zero (by omega)
      rw [Tag.sweep, List.append_nil]
      rwa [empty] at queued
  | succ limit induction =>
      cases queue with
      | nil =>
          rw [Tag.sweep, List.append_nil]
          exact queued
      | cons entry queue =>
          rw [Tag.sweep, ← List.singleton_append, ← List.append_assoc]
          apply induction (queued.step distinct)
          rw [List.length_append, List.length_singleton]
          omega

theorem queued_reached : Queued tags (reached tags) [] :=
  (queued_roots distinct).sweep distinct (Nat.le_of_eq (Nat.zero_add _).symm)

/-- Nothing is left in the queue for a greater limit to take off. -/
theorem Queued.sweep_ends (queued : Queued tags done queue)
    (room : tags.length ≤ done.length + limit) (extra : Nat) :
    Tag.sweep tags (limit + extra) queue = Tag.sweep tags limit queue := by
  induction limit generalizing done queue with
  | zero =>
      have few := queued.length_le
      have empty : queue = [] := List.eq_nil_of_length_eq_zero (by omega)
      rw [empty]
      cases 0 + extra <;> rfl
  | succ limit induction =>
      rw [Nat.succ_add]
      cases queue with
      | nil => rfl
      | cons entry queue =>
          rw [Tag.sweep, Tag.sweep, induction (queued.step distinct)]
          rw [List.length_append, List.length_singleton]
          omega

theorem sweep_ends (extra : Nat) :
    sweep tags (tags.length + extra) ((roots tags).map fun root => (root, 0)) = reached tags :=
  (queued_roots distinct).sweep_ends distinct (Nat.le_of_eq (Nat.zero_add _).symm) extra

/-- What is reached is what stands below a root, at its depth. -/
theorem mem_reached : (tag, depth) ∈ reached tags ↔ Stands tags depth tag := by
  obtain ⟨-, stand, roots, -, children⟩ := queued_reached distinct
  simp only [List.append_nil] at stand roots children
  constructor
  · exact stand (tag, depth)
  · intro stands
    induction stands with
    | root inside top => exact roots _ ((mem_roots distinct).mpr ⟨inside, top⟩)
    | child inside up above induction =>
        exact children _ induction _ ((mem_children_of above.mem).mpr ⟨inside, up⟩)

theorem nodup_reached : ((reached tags).map Prod.fst).Nodup := by
  have apart := (queued_reached distinct).apart
  rwa [List.append_nil] at apart

theorem mem_visited :
    tag ∈ (reached tags).map Prod.fst ↔ tag ∈ tags ∧ ¬ Endless tags tag := by
  rw [List.mem_map]
  constructor
  · rintro ⟨⟨_, depth⟩, inside, rfl⟩
    have stands := (mem_reached distinct).mp inside
    exact ⟨stands.mem, stands.not_endless distinct⟩
  · rintro ⟨inside, ends⟩
    obtain ⟨depth, stands⟩ := (stands_iff_not_endless distinct inside).mpr ends
    exact ⟨(tag, depth), (mem_reached distinct).mpr stands, rfl⟩

theorem nodup_reached_ids : ((reached tags).map fun entry => entry.1.id).Nodup := by
  have ids : ((reached tags).map Prod.fst).map Tag.id =
      (reached tags).map fun entry => entry.1.id := List.map_map
  rw [← ids]
  refine (nodup_reached distinct).map_on ?_
  intro left inLeft right inRight same
  exact eq_of_id_eq distinct ((mem_visited distinct).mp inLeft).1
    ((mem_visited distinct).mp inRight).1 same

theorem depth_in_reached (stands : Stands tags depth tag) : depthIn (reached tags) tag = depth := by
  have found := (find_keyed (nodup_reached_ids distinct)).mpr ⟨(mem_reached distinct).mpr stands, rfl⟩
  rw [depthIn, found]
  rfl

/-- All tags are reached exactly if no tag is above itself. -/
theorem whole_iff_acyclic : (reached tags).length = tags.length ↔ Acyclic tags := by
  have visited : ∀ tag ∈ (reached tags).map Prod.fst, tag ∈ tags :=
    fun tag inside => ((mem_visited distinct).mp inside).1
  have apart := nodup_reached distinct
  rw [acyclic_iff_none_endless]
  constructor
  · intro whole tag inside
    have some := List.subperm_of_subset apart visited
    have all := some.perm_of_length_le (by rw [List.length_map, whole])
    exact ((mem_visited distinct).mp (all.mem_iff.mpr inside)).2
  · intro ends
    have all : ((reached tags).map Prod.fst).Perm tags := by
      refine (List.perm_ext_iff_of_nodup apart (distinct.of_map _)).mpr fun tag => ?_
      exact ⟨visited tag, fun inside => (mem_visited distinct).mpr ⟨inside, ends tag inside⟩⟩
    rw [← all.length_eq, List.length_map]

end Traversal

end TagPolicy.Tag
