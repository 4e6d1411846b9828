import TagPolicy.Tag.Cycle

/-!
The hierarchy of tags. A tree keeps its tags as they were listed; those that have no parent, and those
that have the same one, come out in the order of their names. The traversal from the roots reaches
every tag of a tree, so following parents from any tag comes to an end; the closure of a tag is what
is met on the way.
-/

namespace TagPolicy

inductive TreeFault
  | invalid (fault : TagFault)
  /-- Parents that lead around: the names once around, the first again at the end. -/
  | cycle (names : List String)
deriving DecidableEq, Repr

/-- A forest of tags with distinct ids and names, none of them reserved. The traversal from the roots
reaches all of them. -/
structure TagTree where
  tags : List Tag
  distinct : (tags.map Tag.id).Nodup
  distinctNames : (tags.map Tag.name).Nodup
  unreserved : ∀ tag ∈ tags, isAutomaticName tag.name = false
  whole : (Tag.reached tags).length = tags.length

namespace TagTree

/-- The tree of a list of tags. A tag whose parent is not listed has no parent. -/
def build (tags : List Tag) : Except TreeFault TagTree :=
  match sound : Tag.firstFault [] tags with
  | some fault => .error (.invalid fault)
  | none =>
      if whole : (Tag.reached tags).length = tags.length then
        have facts := Tag.of_first_fault_eq_none sound
        .ok
          { tags
            distinct := facts.2.1
            distinctNames := facts.2.2.1
            unreserved := facts.1
            whole }
      else .error (.cycle (Tag.cycleNames tags))

def empty : TagTree := ⟨[], by simp, by simp, by simp, rfl⟩

instance : Inhabited TagTree := ⟨empty⟩

def size (tree : TagTree) : Nat := tree.tags.length

def isEmpty (tree : TagTree) : Bool := tree.tags.isEmpty

def get? (tree : TagTree) (id : TagId) : Option Tag := Tag.find? tree.tags id

def getNamed? (tree : TagTree) (name : String) : Option Tag :=
  tree.tags.find? fun tag => tag.name = name

def nameOf? (tree : TagTree) (id : TagId) : Option String := (tree.get? id).map Tag.name

def parentOf? (tree : TagTree) (id : TagId) : Option Tag :=
  (tree.get? id).bind (Tag.parentIn tree.tags)

def roots (tree : TagTree) : List Tag := Tag.inNameOrder (Tag.roots tree.tags)

def children (tree : TagTree) (id : TagId) : List Tag :=
  if (tree.get? id).isSome then Tag.inNameOrder (Tag.childrenOf tree.tags id) else []

/-- What is taken off a stack of tags, up to a number of them. The children of a tag that is taken
off are put on top of the stack, the first of them uppermost. -/
def unstack (tree : TagTree) : Nat → List Tag → List Tag
  | 0, _ => []
  | _ + 1, [] => []
  | limit + 1, tag :: stack => tag :: unstack tree limit (tree.children tag.id ++ stack)

/-- Every tag with its depth, each before the tags below it, siblings in the order of names. -/
def depthFirst (tree : TagTree) : List (Tag × Nat) :=
  let reached := Tag.reached tree.tags
  (tree.unstack tree.size tree.roots).map fun tag => (tag, Tag.depthIn reached tag)

/-- A tag and all its ancestors, from the tag up; nothing for an unknown id. -/
def ancestry (tree : TagTree) (id : TagId) : List Tag :=
  ((tree.get? id).bind (Tag.ascend tree.tags tree.size)).getD []

def closure (tree : TagTree) (id : TagId) : TagSet := .ofList ((tree.ancestry id).map Tag.id)

def closureOf (tree : TagTree) (ids : TagSet) : TagSet :=
  ids.toList.foldl (fun found id => found ∪ tree.closure id) .empty

/-- The names of the known tags of a set, in the order of their ids. -/
def names (tree : TagTree) (ids : TagSet) : List String := ids.toList.filterMap tree.nameOf?

end TagTree

end TagPolicy
