import TagPolicy.Tag.Sweep

/-!
Cycles of parents, and how one is reported. Of all tags that the traversal from the roots has not
reached, the one with the smallest id is taken; its parents are followed until one is met again,
which is on the cycle; and the cycle is listed from its own smallest id once around.
-/

namespace TagPolicy.Tag

def smallest (first : Tag) (rest : List Tag) : Tag :=
  rest.foldl (fun least tag => if tag.id < least.id then tag else least) first

/-- The first tag that is met again when the parents of `current` are followed, where `seen` have
been met already; nothing if the parents end. -/
def metAgain (tags : List Tag) : Nat → List Tag → Tag → Option Tag
  | 0, _, _ => none
  | limit + 1, seen, current =>
      if current ∈ seen then some current
      else (current.parentIn tags).bind (metAgain tags limit (current :: seen))

/-- The tags above `current`, itself included, up to but without the tag with an id. -/
def upTo (tags : List Tag) (id : TagId) : Nat → Option Tag → List Tag
  | 0, _ => []
  | _, none => []
  | limit + 1, some current =>
      if current.id = id then []
      else current :: upTo tags id limit (current.parentIn tags)

def cycleFrom (tags : List Tag) (entry : Tag) : List Tag :=
  entry :: upTo tags entry.id tags.length (entry.parentIn tags)

/-- A cycle listed from its smallest id once around, with the first tag again at the end. -/
def aroundFromSmallest : List Tag → List Tag
  | [] => []
  | first :: rest =>
      let least := smallest first rest
      let cycle := first :: rest
      cycle.dropWhile (fun tag => tag.id ≠ least.id) ++
        cycle.takeWhile (fun tag => tag.id ≠ least.id) ++ [least]

/-- What stands in a report for the names of a cycle if none is found. -/
def unknownCycle : List String := ["unknown cycle"]

def cycleNames (tags : List Tag) : List String :=
  let visited := (reached tags).map Prod.fst
  match tags.filter fun tag => tag ∉ visited with
  | [] => unknownCycle
  | first :: rest =>
      match metAgain tags (tags.length + 1) [] (smallest first rest) with
      | none => unknownCycle
      | some entry => (aroundFromSmallest (cycleFrom tags entry)).map Tag.name

end TagPolicy.Tag
