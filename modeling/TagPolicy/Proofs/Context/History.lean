import TagPolicy.Proofs.Context.Provenance
import TagPolicy.Proofs.Tag.Closure

/-!
Contexts and the calls that led to them. A context that was moved, granted and revoked in any order is
the one that would have been built at its last position and then been granted what it has left; how it
came about is not to be seen. Since each call makes a context of its own, the contexts that the calls
started from are still there as they were.
-/

namespace TagPolicy.Context

open Outcome (bind_eq_ok map_eq_ok pure_eq_ok)
open Relation (ReflTransGen)
open Tag (HasParent)

inductive Call
  | moveTo (navigation : Navigation)
  | grant (tag : String)
  | revoke (tag : String)

def Call.apply (context : Context) : Call → Context
  | .moveTo navigation => context.moveTo navigation
  | .grant tag => context.grant tag
  | .revoke tag => context.revoke tag

def after (context : Context) (calls : List Call) : Context := calls.foldl Call.apply context

/-- The position of the last call that moves, or the one before all calls. -/
def lastPlace (navigation : Navigation) : List Call → Navigation
  | [] => navigation
  | .moveTo next :: calls => lastPlace next calls
  | .grant _ :: calls => lastPlace navigation calls
  | .revoke _ :: calls => lastPlace navigation calls

/-- The last call about a tag grants it. -/
def GrantedLast (calls : List Call) (tag : String) : Prop :=
  ∃ earlier later, calls = earlier ++ .grant tag :: later ∧ .revoke tag ∉ later

/-- Contexts in the order they are made. A step names one that is there already by its place, and
adds what a call makes of it. -/
def made (contexts : List Context) : List (Nat × Call) → List Context
  | [] => contexts
  | (place, call) :: steps =>
      match contexts[place]? with
      | none => made contexts steps
      | some context => made (contexts ++ [call.apply context]) steps

section Given

variable {given : OrderedSet String} {call : Call} {calls : List Call} {tag : String}

def givenAfter (given : OrderedSet String) : List Call → OrderedSet String
  | [] => given
  | .moveTo _ :: calls => givenAfter given calls
  | .grant tag :: calls => givenAfter (given.insert tag) calls
  | .revoke tag :: calls => givenAfter (given.erase tag) calls

theorem granted_last_nil : ¬ GrantedLast [] tag := by
  rintro ⟨earlier, later, split, -⟩
  exact absurd split (by simp)

theorem granted_last_cons :
    GrantedLast (call :: calls) tag ↔
      (call = .grant tag ∧ .revoke tag ∉ calls) ∨ GrantedLast calls tag := by
  constructor
  · rintro ⟨earlier, later, split, kept⟩
    cases earlier with
    | nil =>
        cases split
        exact Or.inl ⟨rfl, kept⟩
    | cons first earlier =>
        cases split
        exact Or.inr ⟨earlier, later, rfl, kept⟩
  · rintro (⟨rfl, kept⟩ | ⟨earlier, later, rfl, kept⟩)
    · exact ⟨[], calls, rfl, kept⟩
    · exact ⟨call :: earlier, later, rfl, kept⟩

theorem mem_given_after :
    tag ∈ givenAfter given calls ↔
      GrantedLast calls tag ∨ (tag ∈ given ∧ .revoke tag ∉ calls) := by
  induction calls generalizing given with
  | nil => simp [givenAfter, granted_last_nil]
  | cons call calls induction =>
      rw [granted_last_cons]
      cases call with
      | moveTo navigation =>
          rw [givenAfter, induction]
          simp
      | grant other =>
          rw [givenAfter, induction, OrderedSet.mem_insert]
          by_cases same : tag = other
          · subst same
            simp
            tauto
          · simp [same, Ne.symm same]
      | revoke other =>
          rw [givenAfter, induction, OrderedSet.mem_erase]
          by_cases same : tag = other
          · subst same
            simp
          · simp [same]

theorem mem_given_after_empty : tag ∈ givenAfter .empty calls ↔ GrantedLast calls tag := by
  rw [mem_given_after]
  simp

end Given

section Replay

variable {base : Navigation → Context} {navigation : Navigation} {calls : List Call}
  {granted : List String}

def withGiven (context : Context) (given : OrderedSet String) : Context :=
  refreshed { context with given }

theorem grants_with_given (context : Context) (given : OrderedSet String) :
    granted.foldl grant (context.withGiven given) =
      context.withGiven (given.insertMany granted) := by
  induction granted generalizing given with
  | nil => rfl
  | cons tag granted induction => exact induction (given.insert tag)

/-- Contexts at all positions that differ in nothing else, so that moving leads from one to the
other whatever has been given. -/
structure Movable (base : Navigation → Context) : Prop where
  fresh : ∀ navigation, (base navigation).withGiven .empty = base navigation
  moves : ∀ navigation given next,
    ((base navigation).withGiven given).moveTo next = (base next).withGiven given

theorem Movable.after (movable : Movable base) (given : OrderedSet String) :
    ((base navigation).withGiven given).after calls =
      (base (lastPlace navigation calls)).withGiven (givenAfter given calls) := by
  induction calls generalizing navigation given with
  | nil => rfl
  | cons call calls induction =>
      rw [Context.after, List.foldl_cons]
      cases call with
      | moveTo next =>
          rw [Call.apply, movable.moves]
          exact induction given
      | grant tag => exact induction (given.insert tag)
      | revoke tag => exact induction (given.erase tag)

/-- What calls leave of a context with nothing granted: its last position and its given tags. -/
theorem Movable.replay (movable : Movable base) (navigation : Navigation) (calls : List Call) :
    (base navigation).after calls =
      (base (lastPlace navigation calls)).withGiven (givenAfter .empty calls) := by
  rw [← movable.after, movable.fresh]

theorem Movable.given_after (movable : Movable base) (tag : String) :
    tag ∈ ((base navigation).after calls).given ↔ GrantedLast calls tag := by
  rw [movable.replay]
  exact mem_given_after_empty

/-- The calls may be forgotten, but for the last position and what was granted last. -/
theorem Movable.after_eq (movable : Movable base)
    (last : ∀ tag, tag ∈ granted ↔ GrantedLast calls tag) :
    (base navigation).after calls = granted.foldl grant (base (lastPlace navigation calls)) := by
  have given : givenAfter .empty calls = OrderedSet.empty.insertMany granted := by
    apply OrderedSet.ext
    intro tag
    rw [mem_given_after_empty, ← last, OrderedSet.mem_insert_many]
    simp
  rw [movable.replay, given, ← grants_with_given, movable.fresh]

theorem movable_user (tree : TagTree) (identity : Identity) (explicit : TagSet)
    (attributes : OrderedMap String Value) :
    Movable fun navigation => ofLayers tree (.user identity) navigation explicit
      (Automatic.subjectTags identity navigation) attributes := by
  constructor <;> intros <;> simp only [withGiven, moveTo, ofLayers, refreshed]

theorem movable_target (tree : TagTree) (target : Target) :
    Movable fun navigation => (ofTarget tree target).moveTo navigation := by
  unfold ofTarget
  by_cases empty : target.realm = ""
  · rw [if_pos empty]
    exact ⟨fun _ => rfl, fun _ _ _ => rfl⟩
  · rw [if_neg empty]
    exact ⟨fun _ => rfl, fun _ _ _ => rfl⟩

theorem move_to_nowhere (tree : TagTree) (target : Target) :
    (ofTarget tree target).moveTo .nowhere = ofTarget tree target := by
  unfold ofTarget
  by_cases empty : target.realm = ""
  · rw [if_pos empty]
    rfl
  · rw [if_neg empty]
    rfl

end Replay

section Layers

variable {tags : List Tag} {tree : TagTree} {context : Context} {calls : List Call}

/-- The layers of a context fit a tree, and its effective tags fit its layers. -/
structure Settled (tree : TagTree) (context : Context) : Prop where
  known : ∀ id ∈ context.explicit, (tree.get? id).isSome = true
  implicit : context.implicit = tree.closureOf context.explicit
  names : context.implicitNames = .ofList (tree.names context.implicit)
  current : context.Current

theorem Settled.apply (settled : context.Settled tree) (call : Call) :
    (call.apply context).Settled tree := by
  obtain ⟨known, implicit, names, -⟩ := settled
  cases call <;> exact ⟨known, implicit, names, current_refreshed _⟩

theorem Settled.after (settled : context.Settled tree) (calls : List Call) :
    (context.after calls).Settled tree := by
  induction calls generalizing context with
  | nil => exact settled
  | cons call calls induction => exact induction (settled.apply call)

theorem known_of_mem {ids : List TagId} {id : TagId} (inside : id ∈ knownTags tree ids) :
    (tree.get? id).isSome = true := by
  rw [knownTags, OrderedSet.mem_ofList, List.mem_filter] at inside
  exact inside.2

theorem settled_of_layers (ids : List TagId) (principal : Principal) (navigation : Navigation)
    (automatic : OrderedSet String) (attributes : OrderedMap String Value) :
    (ofLayers tree principal navigation (knownTags tree ids) automatic attributes).Settled tree :=
  ⟨fun _ inside => known_of_mem inside, rfl, rfl, current_refreshed _⟩

structure Layered (tags : List Tag) (context : Context) : Prop where
  /-- The implicit tags are the explicit ones and all their ancestors. -/
  closed : ∀ id, id ∈ context.implicit ↔ ∃ tag ∈ tags, tag.id ∈ context.explicit ∧
    ∃ above, ReflTransGen (HasParent tags) tag above ∧ above.id = id
  contains : ∀ id ∈ context.explicit, id ∈ context.implicit
  effective : ∀ name, name ∈ context.effective ↔
    (∃ tag ∈ tags, tag.id ∈ context.implicit ∧ tag.name = name) ∨
      name ∈ context.automatic ∨ name ∈ context.given
  /-- No stored tag poses as an automatic one. -/
  marked : ∀ name ∈ context.effective, name.toList.head? = some '$' → name ∉ context.given →
    name ∈ context.automatic

theorem Settled.layered (settled : context.Settled tree) (built : TagTree.build tags = .ok tree) :
    context.Layered tags := by
  obtain ⟨known, implicit, names, current⟩ := settled
  have closed : ∀ id, id ∈ context.implicit ↔ ∃ tag ∈ tags, tag.id ∈ context.explicit ∧
      ∃ above, ReflTransGen (HasParent tags) tag above ∧ above.id = id := by
    intro id
    rw [implicit, TagTree.mem_closure_of_built built]
  have effective : ∀ name, name ∈ context.effective ↔
      (∃ tag ∈ tags, tag.id ∈ context.implicit ∧ tag.name = name) ∨
        name ∈ context.automatic ∨ name ∈ context.given := by
    intro name
    rw [current, names, OrderedSet.mem_ofList, TagTree.mem_names_built built]
  refine ⟨closed, ?_, effective, ?_⟩
  · intro id inside
    obtain ⟨tag, listed, same⟩ := TagTree.known_iff.mp (known id inside)
    rw [TagTree.mem_tags built] at listed
    subst same
    exact (closed _).mpr ⟨tag, listed, inside, tag, .refl, rfl⟩
  · intro name inside dollar notGiven
    rcases (effective name).mp inside with ⟨tag, listed, -, rfl⟩ | automatic | given
    · exact absurd dollar ((TagTree.lawful_of_build built).unreserved tag listed)
    · exact automatic
    · exact absurd given notGiven

/-- The layers that no call on the context of a target changes. -/
structure SameEntity (before after : Context) : Prop where
  principal : after.principal = before.principal
  explicit : after.explicit = before.explicit
  implicit : after.implicit = before.implicit
  automatic : after.automatic = before.automatic
  attributes : after.attributes = before.attributes

theorem automatic_move_to (other : context.identity? = none) (navigation : Navigation) :
    (context.moveTo navigation).automatic = context.automatic := by
  rw [identity?] at other
  rw [moveTo, automatic_refreshed]
  cases principal : context.principal with
  | user identity =>
      rw [principal] at other
      cases other
  | entity => rfl
  | nobody => rfl

theorem same_entity_after (tree : TagTree) (target : Target) (calls : List Call) :
    SameEntity (ofTarget tree target) ((ofTarget tree target).after calls) := by
  have isTarget : IsTarget target.realm target.id (ofTarget tree target) := .entity tree rfl rfl
  have replay := (movable_target tree target).replay .nowhere calls
  rw [move_to_nowhere] at replay
  rw [replay]
  exact ⟨rfl, rfl, rfl, automatic_move_to isTarget.layers.2.1 _, rfl⟩

end Layers

section Branches

variable {start : Context} {contexts : List Context} {steps : List (Nat × Call)}

theorem prefix_made : contexts <+: made contexts steps := by
  induction steps generalizing contexts with
  | nil => exact List.prefix_rfl
  | cons step steps induction =>
      rw [made]
      split
      · exact induction
      · exact (List.prefix_append _ _).trans induction

theorem made_append (more : List (Nat × Call)) :
    made contexts (steps ++ more) = made (made contexts steps) more := by
  induction steps generalizing contexts with
  | nil => rfl
  | cons step steps induction =>
      rw [List.cons_append, made, made]
      split
      · exact induction
      · exact induction

theorem after_of_mem_made (origin : ∀ context ∈ contexts, ∃ calls, context = start.after calls) :
    ∀ context ∈ made contexts steps, ∃ calls, context = start.after calls := by
  induction steps generalizing contexts with
  | nil => exact origin
  | cons step steps induction =>
      rw [made]
      split
      · exact induction origin
      · rename_i context here
        apply induction
        apply List.forall_mem_append.mpr ⟨origin, List.forall_mem_singleton.mpr _⟩
        obtain ⟨calls, rfl⟩ := origin context (List.mem_of_getElem? here)
        exact ⟨calls ++ [step.2], by rw [Context.after, Context.after, List.foldl_append]; rfl⟩

end Branches

/-- The context of a user after any calls is the context that is built at the last position and then
granted the tags whose last call was a grant. The context of a target is in the same way that of the
target, of which no call changes more than the position and the given tags. In both the layers fit the
tags that the tree was built of. Calls on different contexts leave each other's contexts alone. -/
theorem independent_of_history {tags : List Tag} {tree : TagTree}
    (built : TagTree.build tags = .ok tree) :
    (∀ (accounts : AccountLookup) (identity : Identity) (navigation : Navigation) (start : Context),
      ofSubject tree accounts identity navigation = .ok start → ∀ calls : List Call,
        (∃ fresh, ofSubject tree accounts identity (lastPlace navigation calls) = .ok fresh ∧
          ∀ granted : List String, (∀ tag, tag ∈ granted ↔ GrantedLast calls tag) →
            start.after calls = granted.foldl grant fresh) ∧
        (∀ tag, tag ∈ (start.after calls).given ↔ GrantedLast calls tag) ∧
          (start.after calls).Layered tags) ∧
    (∀ (target : Target) (calls : List Call),
      (∀ granted : List String, (∀ tag, tag ∈ granted ↔ GrantedLast calls tag) →
        (ofTarget tree target).after calls =
          granted.foldl grant ((ofTarget tree target).moveTo (lastPlace .nowhere calls))) ∧
      (∀ tag, tag ∈ ((ofTarget tree target).after calls).given ↔ GrantedLast calls tag) ∧
        ((ofTarget tree target).after calls).Layered tags ∧
          SameEntity (ofTarget tree target) ((ofTarget tree target).after calls)) ∧
    ∀ (start : Context) (steps : List (Nat × Call)),
      (∀ context ∈ made [start] steps, ∃ calls, context = start.after calls) ∧
        ∀ more, made [start] steps <+: made [start] (steps ++ more) := by
  refine ⟨?_, ?_, ?_⟩
  · intro accounts identity navigation start started calls
    obtain ⟨explicit, assigned, finished⟩ := bind_eq_ok.mp started
    cases pure_eq_ok.mp finished
    obtain ⟨ids, -, rfl⟩ := map_eq_ok.mp assigned
    have movable := movable_user tree identity (knownTags tree ids) .empty
    refine ⟨⟨_, bind_eq_ok.mpr ⟨_, assigned, rfl⟩, fun granted last => ?_⟩, ?_, ?_⟩
    · exact movable.after_eq last
    · exact movable.given_after
    · exact ((settled_of_layers ids _ _ _ _).after calls).layered built
  · intro target calls
    have movable := movable_target tree target
    refine ⟨fun granted last => ?_, ?_, ?_, same_entity_after tree target calls⟩
    · rw [← movable.after_eq last, move_to_nowhere]
    · intro tag
      rw [← movable.given_after tag, move_to_nowhere]
    · exact ((settled_of_layers target.tags _ _ _ _).after calls).layered built
  · intro start steps
    refine ⟨after_of_mem_made ?_, ?_⟩
    · exact List.forall_mem_singleton.mpr ⟨[], rfl⟩
    · intro more
      rw [made_append]
      exact prefix_made

def sampleCalls : List Call :=
  [.grant "ops", .moveTo ⟨some "rack", none⟩, .grant "audit", .revoke "ops", .grant "$any_op",
    .revoke "audit", .grant "ops"]

theorem sample_calls_forgotten :
    ∃ tree start fresh, TagTree.build [⟨2, "row", some 1⟩, ⟨1, "site", none⟩] = .ok tree ∧
      ofSubject tree (fun _ => .ok [2, 99]) ⟨5, "bob"⟩ .nowhere = .ok start ∧
        (∀ tag, tag ∈ ["ops", "$any_op"] ↔ GrantedLast sampleCalls tag) ∧
          ofSubject tree (fun _ => .ok [2, 99]) ⟨5, "bob"⟩ ⟨some "rack", none⟩ = .ok fresh ∧
            start.after sampleCalls = (fresh.grant "ops").grant "$any_op" := by
  have lawful : Tag.Lawful [⟨2, "row", some 1⟩, ⟨1, "site", none⟩] :=
    ⟨by decide, by decide, by decide⟩
  have acyclic := (Tag.acyclic_iff_rooted lawful.ids).mpr (by decide)
  obtain ⟨tree, built, -⟩ := TagTree.build_of_acyclic lawful acyclic
  have last : ∀ tag, tag ∈ ["ops", "$any_op"] ↔ GrantedLast sampleCalls tag := by
    intro tag
    have given : givenAfter .empty sampleCalls = .ofList ["ops", "$any_op"] := by decide
    rw [← mem_given_after_empty, given, OrderedSet.mem_ofList]
  obtain ⟨subjects, -, -⟩ := independent_of_history built
  obtain ⟨⟨fresh, there, same⟩, -, -⟩ :=
    subjects (fun _ => .ok [2, 99]) ⟨5, "bob"⟩ .nowhere _ rfl sampleCalls
  exact ⟨tree, _, fresh, built, rfl, last, there, same _ last⟩

end TagPolicy.Context
