import TagPolicy.Context.Automatic
import TagPolicy.Policy.Evaluation
import TagPolicy.Tag.Tree

/-!
Security contexts: one side of a request as layers of tags. Explicit tags are assigned in a store,
implicit ones are these and all their ancestors, automatic ones follow from the request, and given
ones were granted for a session. Rules see the effective tags, the names of all layers together;
they are kept beside the layers, and every call that makes a context puts them together anew.

A context is a value: moving on or granting a tag makes another context.
-/

namespace TagPolicy

inductive Principal
  | user (identity : Identity)
  | entity (realm : String) (id : Option UInt64)
  | nobody
deriving DecidableEq, Repr

structure Context where
  principal : Principal
  navigation : Navigation
  explicit : TagSet
  implicit : TagSet
  implicitNames : OrderedSet String
  automatic : OrderedSet String
  given : OrderedSet String
  attributes : OrderedMap String Value
  /-- The names that rules see. -/
  effective : OrderedSet String
deriving DecidableEq

namespace Context

def empty : Context := ⟨.nobody, .nowhere, .empty, .empty, .empty, .empty, .empty, .empty, .empty⟩

instance : Inhabited Context := ⟨empty⟩

def refreshed (context : Context) : Context :=
  { context with effective := context.implicitNames ∪ context.automatic ∪ context.given }

section Refreshed

variable (context : Context)

@[simp] theorem principal_refreshed : context.refreshed.principal = context.principal := rfl

@[simp] theorem navigation_refreshed : context.refreshed.navigation = context.navigation := rfl

@[simp] theorem explicit_refreshed : context.refreshed.explicit = context.explicit := rfl

@[simp] theorem implicit_refreshed : context.refreshed.implicit = context.implicit := rfl

@[simp] theorem implicit_names_refreshed :
    context.refreshed.implicitNames = context.implicitNames := rfl

@[simp] theorem automatic_refreshed : context.refreshed.automatic = context.automatic := rfl

@[simp] theorem given_refreshed : context.refreshed.given = context.given := rfl

@[simp] theorem attributes_refreshed : context.refreshed.attributes = context.attributes := rfl

end Refreshed

/-- A context with nothing granted, whose implicit layer is taken from a tree. -/
def ofLayers (tree : TagTree) (principal : Principal) (navigation : Navigation) (explicit : TagSet)
    (automatic : OrderedSet String) (attributes : OrderedMap String Value) : Context :=
  let implicit := tree.closureOf explicit
  refreshed ⟨principal, navigation, explicit, implicit, .ofList (tree.names implicit), automatic,
    .empty, attributes, .empty⟩

def hasTag (context : Context) (name : String) : Bool := context.effective.contains name

def identity? (context : Context) : Option Identity :=
  match context.principal with
  | .user identity => some identity
  | _ => none

/-- The context at another position. Only a user's automatic tags depend on the position. -/
def moveTo (context : Context) (navigation : Navigation) : Context :=
  let automatic := match context.principal with
    | .user identity => Automatic.subjectTags identity navigation
    | _ => context.automatic
  refreshed { context with navigation, automatic }

def grant (context : Context) (tag : String) : Context :=
  refreshed { context with given := context.given.insert tag }

def revoke (context : Context) (tag : String) : Context :=
  refreshed { context with given := context.given.erase tag }

end Context

/-- What rules see of a request: the tags of subject, target and operation, and the attributes of
the target. -/
def Facts.ofRequest (subject target : Context) (action : Action) : Facts :=
  ⟨(subject.effective ∪ target.effective).insertMany (Automatic.actionTags action),
    target.attributes⟩

end TagPolicy
