import TagPolicy.Proofs.Tag.Closure

/-!
How far below a root a tag stands. The way up from a tag is one tag longer than that; it is never
longer than there are tags, and it meets no tag twice. The size of a closure is therefore the length
of the way up.
-/

namespace TagPolicy

theorem OrderedSet.size_ofList {α : Type} [LT α] [LE α] [Std.IsLinearOrder α]
    [Std.LawfulOrderLT α] [DecidableLT α] {values : List α} (distinct : values.Nodup) :
    (OrderedSet.ofList values).size = values.length := by
  have increasing := (OrderedSet.ofList values).increasing
  have apart : (OrderedSet.ofList values).toList.Nodup := by
    refine increasing.imp ?_
    intro first second before same
    exact Std.lt_irrefl (same ▸ before)
  have same : (OrderedSet.ofList values).toList.Perm values :=
    (List.perm_ext_iff_of_nodup apart distinct).mpr fun _ => OrderedSet.mem_ofList
  exact same.length_eq

namespace Tag

variable {tags path : List Tag} {tag : Tag} {limit : Nat}

theorem length_of_ascend (found : ascend tags limit tag = some path) : path.length ≤ limit := by
  induction limit generalizing tag path with
  | zero => cases found
  | succ limit induction =>
      rw [ascend] at found
      split at found
      · cases found
        exact Nat.succ_le_succ (Nat.zero_le limit)
      · obtain ⟨rest, goesOn, rfl⟩ := Option.map_eq_some_iff.mp found
        exact Nat.succ_le_succ (induction goesOn)

theorem isChain_of_ascend (distinct : (tags.map Tag.id).Nodup)
    (found : ascend tags limit tag = some path) :
    ∃ rest, path = tag :: rest ∧ (tag :: rest).IsChain (HasParent tags) := by
  induction limit generalizing tag path with
  | zero => cases found
  | succ limit induction =>
      rw [ascend] at found
      split at found
      · cases found
        exact ⟨[], rfl, .singleton tag⟩
      · rename_i parent up
        obtain ⟨above, goesOn, rfl⟩ := Option.map_eq_some_iff.mp found
        obtain ⟨rest, rfl, chain⟩ := induction goesOn
        refine ⟨parent :: rest, rfl, ?_⟩
        exact List.isChain_cons_cons.mpr ⟨(parent_in_eq_some distinct).mp up, chain⟩

end Tag

namespace TagTree

open Tag (Stands)

variable {tree : TagTree} {tag : Tag} {id : TagId} {depth : Nat}

theorem ascend_eq_ancestry (inside : tag ∈ tree.tags) :
    Tag.ascend tree.tags tree.size tag = some (tree.ancestry tag.id) := by
  obtain ⟨path, found⟩ := Option.isSome_iff_exists.mp (tree.rooted tag inside)
  have whole : Tag.ascend tree.tags tree.size tag = some path := found
  rw [ancestry, get_eq_some.mpr ⟨inside, rfl⟩, Option.bind_some, whole, Option.getD_some]

theorem ancestry_listed : ∀ above ∈ tree.ancestry id, above ∈ tree.tags := by
  intro above inside
  obtain ⟨tag, listed, -, leads⟩ := mem_ancestry.mp inside
  exact Tag.mem_of_reaches listed leads

theorem nodup_ancestry : (tree.ancestry id).Nodup := by
  cases known : tree.get? id with
  | none =>
      rw [ancestry, known]
      exact List.nodup_nil
  | some tag =>
      obtain ⟨inside, rfl⟩ := get_eq_some.mp known
      obtain ⟨rest, same, chain⟩ := Tag.isChain_of_ascend tree.distinct (ascend_eq_ancestry inside)
      rw [same]
      by_contra repeated
      exact Tag.acyclic_iff_none_endless.mp tree.acyclic tag inside
        (Tag.endless_of_chain chain repeated)

theorem size_closure : (tree.closure id).size = (tree.ancestry id).length := by
  have apart : ((tree.ancestry id).map Tag.id).Nodup := by
    refine nodup_ancestry.map_on ?_
    intro left inLeft right inRight same
    exact Tag.eq_of_id_eq tree.distinct (ancestry_listed left inLeft)
      (ancestry_listed right inRight) same
  rw [closure, OrderedSet.size_ofList apart, List.length_map]

theorem exists_stands (inside : tag ∈ tree.tags) : ∃ depth, Stands tree.tags depth tag := by
  obtain ⟨depth, -, stands⟩ :=
    Tag.stands_of_ascend tree.distinct inside (ascend_eq_ancestry inside)
  exact ⟨depth, stands⟩

theorem stands_iff :
    Stands tree.tags depth tag ↔
      tag ∈ tree.tags ∧ (tree.ancestry tag.id).length = depth + 1 := by
  constructor
  · intro stands
    obtain ⟨other, length, also⟩ :=
      Tag.stands_of_ascend tree.distinct stands.mem (ascend_eq_ancestry stands.mem)
    rw [stands.unique tree.distinct also]
    exact ⟨stands.mem, length⟩
  · rintro ⟨inside, length⟩
    obtain ⟨other, also, stands⟩ :=
      Tag.stands_of_ascend tree.distinct inside (ascend_eq_ancestry inside)
    rw [Nat.succ.inj (length.symm.trans also)]
    exact stands

theorem stands_lt_size (stands : Stands tree.tags depth tag) : depth < tree.size := by
  have short := Tag.length_of_ascend (ascend_eq_ancestry stands.mem)
  rw [(stands_iff.mp stands).2] at short
  exact short

end TagTree

end TagPolicy
