import TagPolicy.Tag.Basic

/-!
The traversal of listed tags from those without a parent. A queue begins with these, and for every
tag that is taken off its front, the tags whose parent it is come to its end, one level further
down. Tags from which the parents lead around are never queued.
-/

namespace TagPolicy.Tag

def roots (tags : List Tag) : List Tag := tags.filter fun tag => (tag.parentIn tags).isNone

def childrenOf (tags : List Tag) (id : TagId) : List Tag :=
  tags.filter fun tag => tag.parent = some id

/-- What is taken off a queue of tags and their depths, up to a number of them. -/
def sweep (tags : List Tag) : Nat → List (Tag × Nat) → List (Tag × Nat)
  | 0, _ => []
  | _ + 1, [] => []
  | limit + 1, (tag, depth) :: queue =>
      let children := (childrenOf tags tag.id).map fun child => (child, depth + 1)
      (tag, depth) :: sweep tags limit (queue ++ children)

def reached (tags : List Tag) : List (Tag × Nat) :=
  sweep tags tags.length ((roots tags).map fun root => (root, 0))

def depthIn (reached : List (Tag × Nat)) (tag : Tag) : Nat :=
  ((reached.find? fun entry => entry.1.id = tag.id).map Prod.snd).getD 0

end TagPolicy.Tag
