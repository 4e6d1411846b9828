import TagPolicy.Context.Sides
import TagPolicy.Proofs.Store.Accounts
import TagPolicy.Proofs.Tag.Closure

/-!
Tags on their way from a directory into a context. Names become ids, ids that no tag has are left out,
the ways up are walked and ids become names again; no step loses a tag or makes one up, since a
directory without faults knows every name that it assigns and a tree has no name or id twice.
-/

namespace TagPolicy.Context

open Relation (ReflTransGen)
open Tag (HasParent)

section Layers

variable {tags : List Tag} {tree : TagTree} {tag : Tag} {assigned : Tag → Prop} {explicit : TagSet}

/-- The explicit tags of a context are those of a list that are assigned, by id and by name, and its
implicit tags are these and their ancestors in the list. -/
structure Carries (tree : TagTree) (tags : List Tag) (assigned : Tag → Prop) (context : Context) :
    Prop where
  explicit : ∀ id, id ∈ context.explicit ↔ ∃ tag ∈ tags, assigned tag ∧ tag.id = id
  explicitNames : ∀ name, name ∈ tree.names context.explicit ↔
    ∃ tag ∈ tags, assigned tag ∧ tag.name = name
  implicit : ∀ id, id ∈ context.implicit ↔
    ∃ tag ∈ tags, assigned tag ∧ ∃ above, ReflTransGen (HasParent tags) tag above ∧ above.id = id
  implicitNames : ∀ name, name ∈ tree.names context.implicit ↔
    ∃ tag ∈ tags, assigned tag ∧
      ∃ above, ReflTransGen (HasParent tags) tag above ∧ above.name = name
  /-- The names are kept beside the ids. -/
  kept : ∀ name, name ∈ context.implicitNames ↔ name ∈ tree.names context.implicit

/-- Whether a listed tag is in a set is seen from its id, since no other has that id. -/
theorem id_mem_iff (ids : (tags.map Tag.id).Nodup) (inside : tag ∈ tags)
    (exact : ∀ id, id ∈ explicit ↔ ∃ tag ∈ tags, assigned tag ∧ tag.id = id) :
    tag.id ∈ explicit ↔ assigned tag := by
  rw [exact]
  constructor
  · rintro ⟨other, listed, chosen, same⟩
    rw [Tag.eq_of_id_eq ids inside listed same.symm]
    exact chosen
  · intro chosen
    exact ⟨tag, inside, chosen, rfl⟩

theorem carries_of_layers (built : TagTree.build tags = .ok tree)
    (exact : ∀ id, id ∈ explicit ↔ ∃ tag ∈ tags, assigned tag ∧ tag.id = id)
    (principal : Principal) (navigation : Navigation) (automatic : OrderedSet String)
    (attributes : OrderedMap String Value) :
    (ofLayers tree principal navigation explicit automatic attributes).Carries tree tags assigned := by
  have ids := (TagTree.lawful_of_build built).ids
  have chosen : ∀ (shown : Tag → Prop), (∃ tag ∈ tags, tag.id ∈ explicit ∧ shown tag) ↔
      ∃ tag ∈ tags, assigned tag ∧ shown tag := by
    intro shown
    refine exists_congr fun tag => and_congr_right fun inside => ?_
    rw [id_mem_iff ids inside exact]
  refine ⟨exact, fun name => ?_, fun id => ?_, fun name => ?_, fun name => ?_⟩
  · rw [← chosen]
    exact TagTree.mem_names_built built
  · rw [← chosen]
    exact TagTree.mem_closure_of_built built
  · rw [← chosen]
    exact TagTree.mem_names_closure_of built
  · exact OrderedSet.mem_ofList

theorem mem_known_tags (built : TagTree.build tags = .ok tree) {ids : List TagId} {id : TagId} :
    id ∈ knownTags tree ids ↔ ∃ tag ∈ tags, tag.id ∈ ids ∧ tag.id = id := by
  rw [knownTags, OrderedSet.mem_ofList, List.mem_filter, TagTree.known_iff]
  simp only [TagTree.mem_tags built]
  constructor
  · rintro ⟨member, tag, inside, rfl⟩
    exact ⟨tag, inside, member, rfl⟩
  · rintro ⟨tag, inside, member, rfl⟩
    exact ⟨member, tag, inside, rfl⟩

end Layers

section Names

variable {directory : Directory} {account : Account} {names : List String} {id : TagId}

theorem mem_filterMap_tag_id (distinct : (directory.tags.map Tag.name).Nodup) :
    id ∈ names.filterMap directory.tagId? ↔
      ∃ tag ∈ directory.tags, tag.name ∈ names ∧ tag.id = id := by
  rw [List.mem_filterMap]
  simp only [Directory.tagId?, Option.map_eq_some_iff, find_keyed distinct]
  constructor
  · rintro ⟨name, member, tag, ⟨inside, rfl⟩, found⟩
    exact ⟨tag, inside, member, found⟩
  · rintro ⟨tag, inside, member, found⟩
    exact ⟨tag.name, member, tag, ⟨inside, rfl⟩, found⟩

theorem explicit_tags_own (userIds : (directory.accounts.map Account.userId).Nodup)
    (inside : account ∈ directory.accounts) :
    directory.explicitTags account.identity = .ok (account.tags.filterMap directory.tagId?) := by
  have found : (directory.accounts.find? fun other => other.userId = account.identity.userId) =
      some account := (find_keyed userIds).mpr ⟨inside, rfl⟩
  rw [Directory.explicitTags, found]

/-- The tags that are found under the names are known to the tree, so none is left out. -/
theorem mem_known_tags_names {tree : TagTree} (built : TagTree.build directory.tags = .ok tree)
    (names : List String) (id : TagId) :
    id ∈ knownTags tree (names.filterMap directory.tagId?) ↔
      ∃ tag ∈ directory.tags, tag.name ∈ names ∧ tag.id = id := by
  rw [mem_known_tags built]
  simp only [mem_filterMap_tag_id (TagTree.lawful_of_build built).names]
  constructor
  · rintro ⟨_, -, ⟨tag, inside, member, same⟩, rfl⟩
    exact ⟨tag, inside, member, same⟩
  · rintro ⟨tag, inside, member, rfl⟩
    exact ⟨tag, inside, ⟨tag, inside, member, rfl⟩, rfl⟩

/-- A name that an account lists is the name of a tag, so no listed name is lost. -/
theorem listed_iff (valid : directory.Valid) (inside : account ∈ directory.accounts) {name : String} :
    (∃ tag ∈ directory.tags, tag.name ∈ account.tags ∧ tag.name = name) ↔ name ∈ account.tags := by
  constructor
  · rintro ⟨tag, -, listed, rfl⟩
    exact listed
  · intro listed
    obtain ⟨tag, known, rfl⟩ := List.mem_map.mp (valid.known account inside name listed)
    exact ⟨tag, known, listed, rfl⟩

end Names

/-- The context of an account of a directory has the tags that the account lists and their ancestors,
by name, and the context of a target has the tags of the directory among its ids and their
ancestors; neither has any other. -/
theorem assigned_tags_exact {directory : Directory} {tree : TagTree}
    (valid : directory.fault? = none) (built : TagTree.build directory.tags = .ok tree) :
    (∀ account ∈ directory.accounts, ∀ navigation : Navigation, ∃ context,
      ofSubject tree directory.explicitTags account.identity navigation = .ok context ∧
        (∀ name, name ∈ tree.names context.explicit ↔ name ∈ account.tags) ∧
          context.Carries tree directory.tags fun tag => tag.name ∈ account.tags) ∧
    ∀ target : Target,
      (ofTarget tree target).Carries tree directory.tags fun tag => tag.id ∈ target.tags := by
  have sound := Directory.fault_eq_none.mp valid
  constructor
  · intro account inside navigation
    have carries := carries_of_layers built (mem_known_tags_names built account.tags)
      (.user account.identity) navigation (Automatic.subjectTags account.identity navigation) .empty
    refine ⟨_, ?_, fun name => ?_, carries⟩
    · rw [ofSubject, explicitOf, explicit_tags_own sound.userIds inside]
      rfl
    · rw [carries.explicitNames, listed_iff sound inside]
  · intro target
    exact carries_of_layers built (fun _ => mem_known_tags built) _ _ _ _

/-- Tags below each other and below one that is not listed, and an account that names one of them
twice. -/
def sampleDirectory : Directory :=
  ⟨[⟨2, "rack", some 1⟩, ⟨1, "site", none⟩, ⟨3, "loose", some 99⟩],
    [⟨5, "bob", ["rack", "rack"]⟩, ⟨6, "eve", []⟩]⟩

theorem sample_tags_assigned :
    ∃ tree context, sampleDirectory.fault? = none ∧
      TagTree.build sampleDirectory.tags = .ok tree ∧
        ofSubject tree sampleDirectory.explicitTags ⟨5, "bob"⟩ .nowhere = .ok context ∧
          (∀ name, name ∈ tree.names context.explicit ↔ name ∈ ["rack", "rack"]) ∧
            "site" ∈ context.implicitNames ∧
              3 ∈ (ofTarget tree ⟨"object", some 1, [3, 77], .empty⟩).explicit ∧
                77 ∉ (ofTarget tree ⟨"object", some 1, [3, 77], .empty⟩).explicit := by
  have valid : sampleDirectory.fault? = none := by decide
  have lawful : Tag.Lawful sampleDirectory.tags := ⟨by decide, by decide, by decide⟩
  have acyclic := (Tag.acyclic_iff_rooted lawful.ids).mpr (by decide)
  obtain ⟨tree, built, -⟩ := TagTree.build_of_acyclic lawful acyclic
  obtain ⟨accounts, targets⟩ := assigned_tags_exact valid built
  obtain ⟨context, made, listed, carries⟩ :=
    accounts ⟨5, "bob", ["rack", "rack"]⟩ (by decide) .nowhere
  have object := targets ⟨"object", some 1, [3, 77], .empty⟩
  have up : HasParent sampleDirectory.tags ⟨2, "rack", some 1⟩ ⟨1, "site", none⟩ :=
    ⟨by decide, rfl⟩
  refine ⟨tree, context, valid, built, made, listed, ?_, ?_, ?_⟩
  · rw [carries.kept, carries.implicitNames]
    exact ⟨⟨2, "rack", some 1⟩, by decide, by decide, ⟨1, "site", none⟩, .single up, rfl⟩
  · exact (object.explicit 3).mpr ⟨⟨3, "loose", some 99⟩, by decide, by decide, rfl⟩
  · rw [object.explicit 77]
    decide

end TagPolicy.Context
