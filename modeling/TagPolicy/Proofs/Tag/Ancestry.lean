import Mathlib.Data.List.Chain
import Mathlib.Data.List.Nodup
import Mathlib.Data.List.Perm.Subperm
import Mathlib.Logic.Relation
import TagPolicy.Tag.Basic

/-!
The parents of listed tags. Every tag is below a root exactly if following parents never leads from a
tag back to itself: on a way around, going up has no end, and a way up that goes on for longer than
there are tags comes to some tag twice. So the tags below no root are those whose parents lead around
somewhere.
-/

namespace TagPolicy

/-- Looking up a key finds the one item that has it, if no two have the same. -/
theorem find_keyed {α κ : Type} [DecidableEq κ] {items : List α} {of : α → κ} {key : κ}
    {item : α} (distinct : (items.map of).Nodup) :
    (items.find? fun other => of other = key) = some item ↔ item ∈ items ∧ of item = key := by
  constructor
  · intro found
    exact ⟨List.mem_of_find?_eq_some found, by simpa using List.find?_some found⟩
  · rintro ⟨inside, rfl⟩
    cases found : items.find? fun other => of other = of item with
    | none => exact absurd (List.find?_eq_none.mp found item inside) (by simp)
    | some first =>
        have same : of first = of item := by simpa using List.find?_some found
        have listed := List.mem_of_find?_eq_some found
        rw [List.inj_on_of_nodup_map distinct listed inside same]

namespace Tag

open Relation (ReflTransGen TransGen)

variable {tags other path : List Tag} {tag child parent : Tag} {id : TagId} {limit : Nat}

def isRooted (tags : List Tag) (tag : Tag) : Bool := (ascend tags tags.length tag).isSome

def HasParent (tags : List Tag) (child parent : Tag) : Prop :=
  parent ∈ tags ∧ child.parent = some parent.id

/-- Following parents among the listed tags never leads from a tag back to itself. -/
def Acyclic (tags : List Tag) : Prop := ∀ tag ∈ tags, ¬ TransGen (HasParent tags) tag tag

/-- A tag on a cycle of parents, or below one. -/
def Endless (tags : List Tag) (tag : Tag) : Prop :=
  ∃ met, ReflTransGen (HasParent tags) tag met ∧ TransGen (HasParent tags) met met

theorem has_parent_congr (same : other.Perm tags) : HasParent other = HasParent tags := by
  funext child parent
  rw [HasParent, HasParent, same.mem_iff]

theorem acyclic_congr (same : other.Perm tags) : Acyclic other ↔ Acyclic tags := by
  simp only [Acyclic, has_parent_congr same, same.mem_iff]

/-- A way up that comes to a tag twice comes to a way around. -/
theorem endless_of_chain (chain : (tag :: path).IsChain (HasParent tags))
    (repeated : ¬ (tag :: path).Nodup) : Endless tags tag := by
  induction path generalizing tag with
  | nil => exact absurd (List.nodup_singleton tag) repeated
  | cons parent path induction =>
      by_cases again : tag ∈ parent :: path
      · have leads : (tag :: parent :: path).IsChain (TransGen (HasParent tags)) :=
          chain.imp fun _ _ up => .single up
        exact ⟨tag, .refl, (List.pairwise_cons.mp leads.pairwise).1 tag again⟩
      · obtain ⟨up, onward⟩ := List.isChain_cons_cons.mp chain
        have later : ¬ (parent :: path).Nodup :=
          fun apart => repeated (List.nodup_cons.mpr ⟨again, apart⟩)
        obtain ⟨met, leads, around⟩ := induction onward later
        exact ⟨met, .head up leads, around⟩

/-- From where the parents lead around there is a parent, and they lead around from it. -/
theorem Endless.up (endless : Endless tags tag) :
    ∃ parent, HasParent tags tag parent ∧ Endless tags parent := by
  obtain ⟨met, leads, around⟩ := endless
  rcases leads.cases_head with rfl | ⟨parent, up, onward⟩
  · obtain ⟨parent, up, back⟩ := TransGen.head'_iff.mp around
    exact ⟨parent, up, tag, back, around⟩
  · exact ⟨parent, up, met, onward, around⟩

theorem acyclic_iff_none_endless : Acyclic tags ↔ ∀ tag ∈ tags, ¬ Endless tags tag := by
  constructor
  · rintro acyclic tag - ⟨met, -, around⟩
    obtain ⟨below, -, up⟩ := TransGen.tail'_iff.mp around
    exact acyclic met up.1 around
  · intro ends tag inside around
    exact ends tag inside ⟨tag, .refl, around⟩

section Distinct

variable (distinct : (tags.map Tag.id).Nodup)

include distinct

theorem eq_of_id_eq {left right : Tag} (inLeft : left ∈ tags) (inRight : right ∈ tags)
    (same : left.id = right.id) : left = right :=
  List.inj_on_of_nodup_map distinct inLeft inRight same

theorem find_eq_some : find? tags id = some tag ↔ tag ∈ tags ∧ tag.id = id := find_keyed distinct

theorem parent_in_eq_some : tag.parentIn tags = some parent ↔ HasParent tags tag parent := by
  rw [parentIn, Option.bind_eq_some_iff]
  simp only [find_eq_some distinct]
  constructor
  · rintro ⟨id, named, listed, rfl⟩
    exact ⟨listed, named⟩
  · rintro ⟨listed, named⟩
    exact ⟨parent.id, named, listed, rfl⟩

/-- A tag has one parent. -/
theorem has_parent_unique : Relator.RightUnique (HasParent tags) := by
  intro child left right inLeft inRight
  rw [← parent_in_eq_some distinct] at inLeft inRight
  exact Option.some.inj (inLeft.symm.trans inRight)

/-- Where the parents lead around, going up has no end. -/
theorem Endless.ascend_eq_none (endless : Endless tags tag) (limit : Nat) :
    ascend tags limit tag = none := by
  induction limit generalizing tag with
  | zero => rfl
  | succ limit induction =>
      obtain ⟨parent, up, onward⟩ := endless.up
      rw [ascend, (parent_in_eq_some distinct).mpr up]
      exact Option.map_eq_none_iff.mpr (induction onward)

/-- A way up without an end within a number of tags. -/
theorem path_of_ascend (endless : ascend tags limit tag = none) :
    ∃ path : List Tag, path.length = limit ∧ (∀ above ∈ path, above ∈ tags) ∧
      (tag :: path).IsChain (HasParent tags) := by
  induction limit generalizing tag with
  | zero => exact ⟨[], rfl, by simp, by simp⟩
  | succ limit induction =>
      rw [ascend] at endless
      split at endless
      · cases endless
      · rename_i parent above
        have up := (parent_in_eq_some distinct).mp above
        obtain ⟨path, length, listed, chain⟩ := induction (Option.map_eq_none_iff.mp endless)
        refine ⟨parent :: path, by rw [List.length_cons, length], ?_, ?_⟩
        · exact List.forall_mem_cons.mpr ⟨up.1, listed⟩
        · exact List.isChain_cons_cons.mpr ⟨up, chain⟩

theorem endless_iff (inside : tag ∈ tags) : Endless tags tag ↔ tag.isRooted tags = false := by
  rw [isRooted, Option.isSome_eq_false_iff, Option.isNone_iff_eq_none]
  constructor
  · intro endless
    exact endless.ascend_eq_none distinct tags.length
  · intro endless
    obtain ⟨path, length, listed, chain⟩ := path_of_ascend distinct endless
    apply endless_of_chain chain
    intro apart
    have all := List.forall_mem_cons.mpr ⟨inside, listed⟩
    have few := (List.subperm_of_subset apart all).length_le
    rw [List.length_cons] at few
    omega

theorem acyclic_iff_rooted : Acyclic tags ↔ ∀ tag ∈ tags, tag.isRooted tags = true := by
  rw [acyclic_iff_none_endless]
  refine forall₂_congr fun tag inside => ?_
  rw [endless_iff distinct inside, Bool.not_eq_false]

end Distinct

end Tag

end TagPolicy
