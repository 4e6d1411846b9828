import TagPolicy.Context.Sides
import TagPolicy.Proofs.Context.TagNames
import TagPolicy.Proofs.Outcome

/-!
Where the automatic tags of a request come from. Without tags that were given, those of users come
from the subject and those of operations from the operation, whatever the target is, as long as the
target's realm is apart.
-/

namespace TagPolicy

open Automatic
open Outcome (bind_eq_ok pure_eq_ok)

theorem TagTree.names_not_automatic {tree : TagTree} {ids : TagSet} {name : String}
    (inside : name ∈ tree.names ids) : isAutomaticName name = false := by
  obtain ⟨id, -, named⟩ := List.mem_filterMap.mp inside
  obtain ⟨tag, found, rfl⟩ := Option.map_eq_some_iff.mp named
  exact tree.unreserved tag (List.mem_of_find?_eq_some found)

theorem is_automatic_name_user_id_tag (number : UInt32) :
    isAutomaticName (userIdTag number) = true := by
  simp [isAutomaticName, automaticMark, user_id_tag_eq]

theorem is_automatic_name_username_tag (name : String) :
    isAutomaticName (usernameTag name) = true := by
  simp [isAutomaticName, automaticMark, usernameTag]

theorem is_automatic_name_op (text : String) : isAutomaticName ("$op_" ++ text) = true := by
  simp [isAutomaticName, automaticMark]

namespace Context

inductive IsSubject : Context → Prop
  | nobody : IsSubject .empty
  | user {tree : TagTree} {accounts : AccountLookup} {identity : Identity} {navigation : Navigation}
      {context : Context} : ofSubject tree accounts identity navigation = .ok context →
        IsSubject context
  | moveTo {context : Context} (navigation : Navigation) :
      IsSubject context → IsSubject (context.moveTo navigation)
  | grant {context : Context} (tag : String) : IsSubject context → IsSubject (context.grant tag)
  | revoke {context : Context} (tag : String) : IsSubject context → IsSubject (context.revoke tag)

inductive IsTarget (realm : String) (id : Option UInt64) : Context → Prop
  | nothing : realm = "" → IsTarget realm id .empty
  | entity {target : Target} (tree : TagTree) : target.realm = realm → target.id = id →
      IsTarget realm id (ofTarget tree target)
  | moveTo {context : Context} (navigation : Navigation) :
      IsTarget realm id context → IsTarget realm id (context.moveTo navigation)
  | grant {context : Context} (tag : String) :
      IsTarget realm id context → IsTarget realm id (context.grant tag)
  | revoke {context : Context} (tag : String) :
      IsTarget realm id context → IsTarget realm id (context.revoke tag)

/-- The effective tags are those of the layers. -/
def Current (context : Context) : Prop :=
  ∀ tag, tag ∈ context.effective ↔
    tag ∈ context.implicitNames ∨ tag ∈ context.automatic ∨ tag ∈ context.given

theorem current_refreshed (context : Context) : context.refreshed.Current := by
  intro tag
  change tag ∈ context.implicitNames ∪ context.automatic ∪ context.given ↔ _
  rw [OrderedSet.mem_union, OrderedSet.mem_union, or_assoc]
  rfl

theorem current_empty : Current .empty := by
  intro tag
  simp [empty]

theorem current_of_target (tree : TagTree) (target : Target) : (ofTarget tree target).Current :=
  current_refreshed _

theorem IsSubject.current {context : Context} (isSubject : context.IsSubject) :
    context.Current := by
  cases isSubject with
  | nobody => exact current_empty
  | user built =>
      obtain ⟨explicit, -, built⟩ := bind_eq_ok.mp built
      cases pure_eq_ok.mp built
      exact current_refreshed _
  | moveTo => exact current_refreshed _
  | grant => exact current_refreshed _
  | revoke => exact current_refreshed _

theorem IsTarget.current {realm : String} {id : Option UInt64} {context : Context}
    (isTarget : IsTarget realm id context) : context.Current := by
  cases isTarget with
  | nothing => exact current_empty
  | entity => exact current_refreshed _
  | moveTo => exact current_refreshed _
  | grant => exact current_refreshed _
  | revoke => exact current_refreshed _

theorem of_layers_not_automatic {tree : TagTree} {principal : Principal} {navigation : Navigation}
    {explicit : TagSet} {automatic : OrderedSet String} {attributes : OrderedMap String Value} :
    ∀ name ∈ (ofLayers tree principal navigation explicit automatic attributes).implicitNames,
      isAutomaticName name = false := by
  intro name inside
  rw [ofLayers, implicit_names_refreshed, OrderedSet.mem_ofList] at inside
  exact TagTree.names_not_automatic inside

theorem mem_automatic_move_to {context : Context} {navigation : Navigation} {tag : String}
    (inside : tag ∈ (context.moveTo navigation).automatic) :
    (∃ identity, context.identity? = some identity ∧ tag ∈ subjectTags identity navigation) ∨
      (context.identity? = none ∧ tag ∈ context.automatic) := by
  rw [moveTo] at inside
  rw [identity?]
  cases principal : context.principal with
  | user identity =>
      rw [principal] at inside
      exact Or.inl ⟨identity, rfl, inside⟩
  | entity realm id =>
      rw [principal] at inside
      exact Or.inr ⟨rfl, inside⟩
  | nobody =>
      rw [principal] at inside
      exact Or.inr ⟨rfl, inside⟩

theorem IsSubject.layers {context : Context} (isSubject : context.IsSubject) :
    (∀ name ∈ context.implicitNames, isAutomaticName name = false) ∧
      ∀ tag ∈ context.automatic, ∃ identity navigation, context.identity? = some identity ∧
        tag ∈ subjectTags identity navigation := by
  induction isSubject with
  | nobody =>
      constructor
      · intro name inside
        cases inside
      · intro tag inside
        cases inside
  | @user tree accounts identity navigation context built =>
      obtain ⟨explicit, -, built⟩ := bind_eq_ok.mp built
      cases pure_eq_ok.mp built
      refine ⟨of_layers_not_automatic, ?_⟩
      intro tag inside
      exact ⟨identity, navigation, rfl, inside⟩
  | @moveTo context navigation _ induction =>
      refine ⟨induction.1, ?_⟩
      intro tag inside
      rcases mem_automatic_move_to inside with ⟨identity, user, inside⟩ | ⟨-, inside⟩
      · exact ⟨identity, navigation, user, inside⟩
      · exact induction.2 tag inside
  | grant _ _ induction => exact induction
  | revoke _ _ induction => exact induction

theorem IsTarget.layers {realm : String} {id : Option UInt64} {context : Context}
    (isTarget : IsTarget realm id context) :
    (∀ name ∈ context.implicitNames, isAutomaticName name = false) ∧
      context.identity? = none ∧ ∀ tag ∈ context.automatic, tag ∈ entityTags realm id := by
  induction isTarget with
  | nothing =>
      refine ⟨?_, rfl, ?_⟩
      · intro name inside
        cases inside
      · intro tag inside
        cases inside
  | @entity target tree sameRealm sameId =>
      subst sameRealm sameId
      refine ⟨of_layers_not_automatic, ?_, fun tag inside => inside⟩
      rw [ofTarget, ofLayers, identity?, principal_refreshed]
      by_cases empty : target.realm = ""
      · rw [if_pos empty]
      · rw [if_neg empty]
  | @moveTo context navigation _ induction =>
      refine ⟨induction.1, induction.2.1, ?_⟩
      intro tag inside
      rcases mem_automatic_move_to inside with ⟨identity, user, -⟩ | ⟨-, inside⟩
      · rw [induction.2.1] at user
        cases user
      · exact induction.2.2 tag inside
  | grant _ _ induction => exact induction
  | revoke _ _ induction => exact induction

/-- An automatic tag that rules see is one of the subject, the target or the operation. -/
theorem mem_request {realm : String} {id : Option UInt64} {subject target : Context}
    {action : Action} {tag : String} (isSubject : subject.IsSubject)
    (isTarget : target.IsTarget realm id) (subjectGiven : subject.given = .empty)
    (targetGiven : target.given = .empty) (automatic : isAutomaticName tag = true)
    (seen : tag ∈ (Facts.ofRequest subject target action).tags) :
    (∃ identity navigation, subject.identity? = some identity ∧
        tag ∈ subjectTags identity navigation) ∨
      tag ∈ entityTags realm id ∨ tag ∈ actionTags action := by
  have nothing : ∀ context : Context, context.Current → context.given = .empty →
      (∀ name ∈ context.implicitNames, isAutomaticName name = false) →
        tag ∈ context.effective → tag ∈ context.automatic := by
    intro context current given stored inside
    rw [current, given] at inside
    rcases inside with implicit | inside | absent
    · rw [stored tag implicit] at automatic
      cases automatic
    · exact inside
    · cases absent
  rw [Facts.ofRequest, OrderedSet.mem_insert_many, OrderedSet.mem_union] at seen
  rcases seen with operation | inside | inside
  · exact Or.inr (Or.inr operation)
  · have layers := isSubject.layers
    exact Or.inl (layers.2 tag (nothing subject isSubject.current subjectGiven layers.1 inside))
  · have layers := isTarget.layers
    have automatic := nothing target isTarget.current targetGiven layers.1 inside
    exact Or.inr (Or.inl (layers.2.2 tag automatic))

/-- Whether the tags of users and operations that rules see are those of a subject and an
operation. -/
structure Attributed (subject : Context) (action : Action) (tags : OrderedSet String) : Prop where
  authenticated : anyAuthenticated ∈ tags → ∃ identity, subject.identity? = some identity
  userId : ∀ number, userIdTag number ∈ tags →
    ∃ identity, subject.identity? = some identity ∧ identity.userId = number
  username : ∀ name, usernameTag name ∈ tags →
    ∃ identity, subject.identity? = some identity ∧ identity.username = name
  anyOperation : anyAction ∈ tags → action.name ≠ ""
  operation : ∀ text, "$op_" ++ text ∈ tags →
    action.name ≠ "" ∧ text = Text.normalize action.name

theorem attributed_of_apart {realm : String} {id : Option UInt64} (apart : Apart actorStarts realm id)
    {subject target : Context} (action : Action) (isSubject : subject.IsSubject)
    (isTarget : target.IsTarget realm id) (subjectGiven : subject.given = .empty)
    (targetGiven : target.given = .empty) :
    Attributed subject action (Facts.ofRequest subject target action).tags := by
  obtain ⟨notAuth, notOp, numbered⟩ := apart
  have origin := fun tag => @mem_request realm id subject target action tag isSubject isTarget
    subjectGiven targetGiven
  constructor
  · intro seen
    rcases origin anyAuthenticated (by decide) seen with
      ⟨identity, navigation, user, -⟩ | shared | shared
    · exact ⟨identity, user⟩
    · exact absurd ((any_mem_entity_tags (by decide) (by decide)).mp shared) notAuth
    · exact absurd shared any_authenticated_not_mem_action_tags
  · intro number seen
    rcases origin (userIdTag number) (is_automatic_name_user_id_tag number) seen with
      ⟨identity, navigation, user, inside⟩ | shared | shared
    · exact ⟨identity, user, eq_of_user_id_tag_mem inside⟩
    · obtain ⟨entity, given, name, same⟩ := user_id_tag_mem_entity_tags.mp shared
      have small : entity.toNat < UInt32.size := by
        rw [same]
        exact number.toNat_lt
      exact absurd ⟨name, small⟩ (numbered entity given).1
    · exact absurd shared user_id_tag_not_mem_action_tags
  · intro name seen
    rcases origin (usernameTag name) (is_automatic_name_username_tag name) seen with
      ⟨identity, navigation, user, inside⟩ | shared | shared
    · exact ⟨identity, user, eq_of_username_tag_mem inside⟩
    · obtain ⟨entity, rest, given, begun, -⟩ := username_tag_mem_entity_tags.mp shared
      exact absurd begun ((numbered entity given).2 "username_" (by decide) rest)
    · exact absurd shared username_tag_not_mem_action_tags
  · intro seen
    rcases origin anyAction (by decide) seen with ⟨identity, navigation, -, inside⟩ | shared | shared
    · exact absurd inside any_action_not_mem_subject_tags
    · exact absurd ((any_mem_entity_tags (by decide) (by decide)).mp shared) notOp
    · exact (mem_action_tags.mp shared).1
  · intro text seen
    rcases origin ("$op_" ++ text) (is_automatic_name_op text) seen with
      ⟨identity, navigation, -, inside⟩ | shared | shared
    · exact absurd inside op_not_mem_subject_tags
    · obtain ⟨entity, rest, given, begun, -⟩ := op_mem_entity_tags.mp shared
      exact absurd begun ((numbered entity given).2 "op_" (by decide) rest)
    · exact eq_of_op_mem shared

/-- For any other realm there is a request without subject and operation that has a tag of one. -/
theorem apart_of_attributed {realm : String} {id : Option UInt64}
    (attributed : ∀ target : Context, target.IsTarget realm id → target.given = .empty →
      Attributed .empty .access (Facts.ofRequest .empty target .access).tags) :
    Apart actorStarts realm id := by
  have alone := attributed (ofTarget .empty ⟨realm, id, [], .empty⟩) (.entity .empty rfl rfl) rfl
  have seen : ∀ tag ∈ entityTags realm id,
      tag ∈ (Facts.ofRequest .empty (ofTarget .empty ⟨realm, id, [], .empty⟩) .access).tags := by
    intro tag inside
    rw [Facts.ofRequest, OrderedSet.mem_insert_many, OrderedSet.mem_union, current_empty,
      current_of_target]
    exact Or.inr (Or.inr (Or.inr (Or.inl inside)))
  refine ⟨?_, ?_, ?_⟩
  · intro name
    have inside : anyAuthenticated ∈ entityTags realm id :=
      (any_mem_entity_tags (by decide) (by decide)).mpr name
    obtain ⟨identity, user⟩ := alone.authenticated (seen _ inside)
    cases user
  · intro name
    have inside : anyAction ∈ entityTags realm id :=
      (any_mem_entity_tags (by decide) (by decide)).mpr name
    exact alone.anyOperation (seen _ inside) rfl
  · intro number given
    constructor
    · rintro ⟨name, small⟩
      have inside : userIdTag (UInt32.ofNat number.toNat) ∈ entityTags realm id :=
        user_id_tag_mem_entity_tags.mpr
          ⟨number, given, name, (UInt32.toNat_ofNat_of_lt' small).symm⟩
      obtain ⟨identity, user, -⟩ := alone.userId _ (seen _ inside)
      cases user
    · intro start reserved rest name
      rw [actorStarts] at reserved
      simp only [List.mem_cons, List.not_mem_nil, or_false] at reserved
      rcases reserved with rfl | rfl
      · have inside := username_tag_mem_entity_tags.mpr ⟨number, rest, given, name, rfl⟩
        obtain ⟨identity, user, -⟩ := alone.username _ (seen _ inside)
        cases user
      · have inside := op_mem_entity_tags.mpr ⟨number, rest, given, name, rfl⟩
        exact (alone.operation _ (seen _ inside)).1 rfl

/-- The tags of a target are those of no subject and no operation exactly if its realm is apart, and
rules can rely on the tags of users and operations exactly if it is apart from these. -/
theorem target_told_apart (realm : String) (id : Option UInt64) :
    (Apart nameStarts realm id ↔ ∀ tag ∈ entityTags realm id,
      (∀ identity navigation, tag ∉ subjectTags identity navigation) ∧
        ∀ action, tag ∉ actionTags action) ∧
      (Apart actorStarts realm id ↔ ∀ subject target action, IsSubject subject →
        IsTarget realm id target → subject.given = .empty → target.given = .empty →
          Attributed subject action (Facts.ofRequest subject target action).tags) := by
  refine ⟨⟨?_, apart_of_disjoint⟩, ?_, ?_⟩
  · intro apart tag inside
    exact ⟨not_mem_subject_tags_of_apart apart inside, not_mem_action_tags_of_apart apart inside⟩
  · intro apart subject target action isSubject isTarget subjectGiven targetGiven
    exact attributed_of_apart apart action isSubject isTarget subjectGiven targetGiven
  · intro attributed
    apply apart_of_attributed
    intro target isTarget given
    exact attributed .empty target .access .nobody isTarget rfl given

theorem apart_object : Apart actorStarts "object" (some 42) := by
  refine ⟨by decide, by decide, ?_⟩
  rintro number -
  refine ⟨fun user => absurd user.1 (by decide), ?_⟩
  intro start reserved rest name
  have none : ∀ start ∈ actorStarts, ¬ start.toList <+: (Text.normalize "object").toList := by
    decide
  apply none start reserved
  exact ⟨rest.toList, by rw [name, String.toList_append]⟩

/-- An object with a number is not taken for the user with that number. -/
theorem object_not_taken_for_user :
    Apart actorStarts "object" (some 42) ∧
      userIdTag 42 ∉ (Facts.ofRequest .empty
        (ofTarget .empty ((Target.ofRealm "object").withId 42)) ⟨"edit"⟩).tags := by
  refine ⟨apart_object, ?_⟩
  intro seen
  have attributed := (target_told_apart "object" (some 42)).2.mp apart_object .empty
    (ofTarget .empty ((Target.ofRealm "object").withId 42)) ⟨"edit"⟩ .nobody
    (.entity .empty rfl rfl) rfl rfl
  obtain ⟨identity, user, -⟩ := attributed.userId 42 seen
  cases user

/-- The realm of authentication gives every request the tag of every authenticated subject. -/
theorem entity_taken_for_subject :
    anyAuthenticated ∈ entityTags "auth" none ∧
      (∀ identity navigation, anyAuthenticated ∈ subjectTags identity navigation) ∧
        IsSubject .empty ∧ IsTarget "auth" none (ofTarget .empty (.ofRealm "auth")) ∧
          anyAuthenticated ∈
            (Facts.ofRequest .empty (ofTarget .empty (.ofRealm "auth")) .access).tags ∧
              Context.empty.identity? = none := by
  refine ⟨by decide, ?_, .nobody, .entity .empty rfl rfl, by decide, rfl⟩
  intro identity navigation
  exact mem_subject_tags.mpr (Or.inl rfl)

end Context

end TagPolicy
