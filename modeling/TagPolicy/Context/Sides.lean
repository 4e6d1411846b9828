import TagPolicy.Context.Basic
import TagPolicy.Store.Fault

/-!
Contexts of subjects and targets, against a tree of tags. Tags that the tree does not know are left
out.
-/

namespace TagPolicy

abbrev AccountLookup := Identity → Except StorageFault (List TagId)

namespace Context

def knownTags (tree : TagTree) (ids : List TagId) : TagSet :=
  .ofList (ids.filter fun id => (tree.get? id).isSome)

def explicitOf (tree : TagTree) (accounts : AccountLookup) (identity : Identity) :
    Except StorageFault TagSet :=
  (accounts identity).map (knownTags tree)

def ofSubject (tree : TagTree) (accounts : AccountLookup) (identity : Identity)
    (navigation : Navigation) : Except StorageFault Context := do
  let explicit ← explicitOf tree accounts identity
  pure (ofLayers tree (.user identity) navigation explicit
    (Automatic.subjectTags identity navigation) .empty)

def ofTarget (tree : TagTree) (target : Target) : Context :=
  let principal : Principal :=
    if target.realm = "" then .nobody else .entity target.realm target.id
  ofLayers tree principal .nowhere (knownTags tree target.tags)
    (Automatic.entityTags target.realm target.id) target.attributes

end Context

end TagPolicy
