import TagPolicy.Proofs.Tag.Level

/-!
The depth-first listing of a tree. `Walks` says what a listing is without a stack or a limit: each
tag, then the listing of its children, then that of its next sibling. A stack gives out such a
listing tag by tag, and it is empty when as many tags have been taken off as there are. What a
listing shows follows by induction on `Walks`: which tags it has, in which order, and where the
parent of a tag is found in it. The depths in it are those at which the traversal from the roots
reached the tags.
-/

namespace TagPolicy

open Relation (ReflTransGen TransGen)

namespace Tag

def SameParent (tags : List Tag) (left right : Tag) : Prop :=
  ∀ parent, HasParent tags left parent ↔ HasParent tags right parent

/-- The order of a hierarchy: a tag before those below it, and before what is below a sibling with a
greater name. -/
inductive Precedes (tags : List Tag) (earlier later : Tag) : Prop
  | below : TransGen (HasParent tags) later earlier → Precedes tags earlier later
  | beside {left right : Tag} :
      ReflTransGen (HasParent tags) earlier left → ReflTransGen (HasParent tags) later right →
        SameParent tags left right → left.name < right.name → Precedes tags earlier later

section Order

variable {tags : List Tag} {tag left right earlier later parent : Tag}
  (distinct : (tags.map Tag.id).Nodup) (acyclic : Acyclic tags)

include acyclic in
theorem SameParent.not_above (same : SameParent tags left right)
    (up : HasParent tags left parent) : ¬ ReflTransGen (HasParent tags) parent right := by
  intro leads
  exact acyclic parent up.1 (TransGen.tail' leads ((same parent).mp up))

include distinct acyclic

/-- What is below two siblings is below one tag twice. -/
theorem SameParent.eq_of_reaches (same : SameParent tags left right)
    (leadsLeft : ReflTransGen (HasParent tags) tag left)
    (leadsRight : ReflTransGen (HasParent tags) tag right) : left = right := by
  have swapped : SameParent tags right left := fun parent => (same parent).symm
  rcases ReflTransGen.total_of_right_unique (has_parent_unique distinct) leadsLeft leadsRight with
    higher | lower
  · rcases higher.cases_head with equal | ⟨parent, up, climbs⟩
    · exact equal
    · exact absurd climbs (same.not_above acyclic up)
  · rcases lower.cases_head with equal | ⟨parent, up, climbs⟩
    · exact equal.symm
    · exact absurd climbs (swapped.not_above acyclic up)

theorem Precedes.ne (precedes : Precedes tags earlier later) (inside : earlier ∈ tags) :
    earlier ≠ later := by
  rintro rfl
  cases precedes with
  | below around => exact acyclic earlier inside around
  | beside toLeft toRight same before =>
      rw [same.eq_of_reaches distinct acyclic toLeft toRight] at before
      exact Std.lt_irrefl before

/-- Siblings are in the order of their names. -/
theorem Precedes.name_lt (precedes : Precedes tags earlier later)
    (siblings : SameParent tags earlier later) : earlier.name < later.name := by
  cases precedes with
  | below leads =>
      obtain ⟨parent, up, climbs⟩ := TransGen.head'_iff.mp leads
      have swapped : SameParent tags later earlier := fun parent => (siblings parent).symm
      exact absurd climbs (swapped.not_above acyclic up)
  | @beside left right toLeft toRight same before =>
      have swapped : SameParent tags right left := fun parent => (same parent).symm
      rcases toLeft.cases_head with rfl | ⟨parent, up, climbs⟩
      · rcases toRight.cases_head with rfl | ⟨other, upLater, climbsLater⟩
        · exact before
        · have upLeft := (siblings other).mpr upLater
          exact absurd climbsLater (same.not_above acyclic upLeft)
      · have upLater := (siblings parent).mp up
        rcases toRight.cases_head with rfl | ⟨other, upOther, climbsOther⟩
        · exact absurd climbs (swapped.not_above acyclic upLater)
        · cases has_parent_unique distinct upLater upOther
          rw [same.eq_of_reaches distinct acyclic climbs climbsOther] at before
          exact absurd before Std.lt_irrefl

end Order

end Tag

/-- The last entry before a place that is set in by one step less than the place. -/
def shownParent {α : Type} (before : List (α × Nat)) (depth : Nat) : Option α :=
  (before.reverse.find? fun entry => entry.2 + 1 = depth).map Prod.fst

theorem shown_parent_zero {α : Type} (before : List (α × Nat)) : shownParent before 0 = none := by
  rw [shownParent, Option.map_eq_none_iff, List.find?_eq_none]
  simp

theorem shown_parent_of_deeper {α : Type} {front between : List (α × Nat)} {parent : α}
    {depth : Nat} (deeper : ∀ entry ∈ between, depth + 1 ≤ entry.2) :
    shownParent (front ++ (parent, depth) :: between) (depth + 1) = some parent := by
  have skipped : (between.reverse.find? fun entry => entry.2 + 1 = depth + 1) = none := by
    rw [List.find?_eq_none]
    intro entry inside
    have low := deeper entry (List.mem_reverse.mp inside)
    simp only [decide_eq_true_eq]
    omega
  rw [shownParent, List.reverse_append, List.reverse_cons, List.append_assoc, List.find?_append,
    skipped, Option.none_or, List.singleton_append, List.find?_cons_of_pos (by simp)]
  rfl

theorem shown_parent_map {α β : Type} (label : α → β) (before : List (α × Nat)) (depth : Nat) :
    shownParent (before.map fun entry => (label entry.1, entry.2)) depth =
      (shownParent before depth).map label := by
  rw [shownParent, shownParent, ← List.map_reverse, List.find?_map, Option.map_map, Option.map_map]
  rfl

/-- A place in two lists, one after the other, is in the first or in the second. -/
theorem place_in_append {α : Type} {first second front back : List α} {item : α}
    (here : first ++ second = front ++ item :: back) :
    (∃ more, front = first ++ more ∧ second = more ++ item :: back) ∨
      ∃ more, first = front ++ item :: more ∧ back = more ++ second := by
  rcases List.append_eq_append_iff.mp here with ⟨more, early, late⟩ | ⟨more, early, late⟩
  · exact .inl ⟨more, early, late⟩
  · cases more with
    | nil => exact .inl ⟨[], by rw [early, List.append_nil, List.append_nil], late.symm⟩
    | cons head more =>
        cases late
        exact .inr ⟨more, early, rfl⟩

namespace TagTree

open Tag (HasParent Precedes SameParent Stands)

inductive Walks (tree : TagTree) : Nat → List Tag → List (Tag × Nat) → Prop
  | nil {depth : Nat} : Walks tree depth [] []
  | cons {depth : Nat} {tag : Tag} {siblings : List Tag} {below rest : List (Tag × Nat)} :
      Walks tree (depth + 1) (tree.children tag.id) below → Walks tree depth siblings rest →
        Walks tree depth (tag :: siblings) ((tag, depth) :: below ++ rest)

section Children

variable {tree : TagTree} {tag child parent : Tag} {depth : Nat} {siblings : List Tag}

theorem mem_children (inside : parent ∈ tree.tags) :
    child ∈ tree.children parent.id ↔ child ∈ tree.tags ∧ HasParent tree.tags child parent := by
  have known : (tree.get? parent.id).isSome = true := known_iff.mpr ⟨parent, inside, rfl⟩
  rw [children, if_pos known, (Tag.in_name_order_perm _).mem_iff, Tag.mem_children_of inside]

theorem children_stand (stands : Stands tree.tags depth parent) :
    ∀ child ∈ tree.children parent.id, Stands tree.tags (depth + 1) child := by
  intro child inside
  obtain ⟨listed, up⟩ := (mem_children stands.mem).mp inside
  exact .child listed up stands

theorem roots_stand : ∀ root ∈ tree.roots, Stands tree.tags 0 root := by
  intro root inside
  obtain ⟨listed, top⟩ := mem_roots_iff.mp inside
  exact .root listed top

theorem siblings_by_name (tree : TagTree) (sibling : Tag → Bool) :
    (Tag.inNameOrder (tree.tags.filter sibling)).Pairwise fun left right =>
      left.name < right.name :=
  Tag.in_name_order_pairwise (tree.distinctNames.sublist (List.filter_sublist.map Tag.name))

structure Ordered (tree : TagTree) (siblings : List Tag) : Prop where
  inside : ∀ tag ∈ siblings, tag ∈ tree.tags
  pairs : siblings.Pairwise fun left right =>
    SameParent tree.tags left right ∧ left.name < right.name

theorem Ordered.tail (ordered : tree.Ordered (tag :: siblings)) : tree.Ordered siblings :=
  ⟨(List.forall_mem_cons.mp ordered.inside).2, (List.pairwise_cons.mp ordered.pairs).2⟩

theorem ordered_roots : tree.Ordered tree.roots := by
  constructor
  · intro tag inside
    exact (mem_roots_iff.mp inside).1
  · refine List.Pairwise.imp_of_mem ?_ (tree.siblings_by_name _)
    intro left right inLeft inRight before
    refine ⟨fun parent => ?_, before⟩
    exact iff_of_false ((mem_roots_iff.mp inLeft).2 parent) ((mem_roots_iff.mp inRight).2 parent)

theorem ordered_children (inside : parent ∈ tree.tags) :
    tree.Ordered (tree.children parent.id) := by
  have onlyParent : ∀ child ∈ tree.children parent.id, ∀ other,
      HasParent tree.tags child other ↔ other = parent := by
    intro child listed other
    have up := ((mem_children inside).mp listed).2
    constructor
    · intro also
      exact Tag.has_parent_unique tree.distinct also up
    · rintro rfl
      exact up
  constructor
  · intro child listed
    exact ((mem_children inside).mp listed).1
  · have byName : (tree.children parent.id).Pairwise fun left right => left.name < right.name := by
      rw [children]
      split
      · exact tree.siblings_by_name _
      · exact .nil
    refine byName.imp_of_mem ?_
    intro left right inLeft inRight before
    refine ⟨fun other => ?_, before⟩
    rw [onlyParent left inLeft, onlyParent right inRight]

end Children

/-- Siblings have a listing, since no tag stands further down than there are tags. -/
theorem exists_walks (tree : TagTree) {room : Nat} {siblings : List Tag}
    (stand : ∀ tag ∈ siblings, Stands tree.tags depth tag) (deep : tree.size ≤ depth + room) :
    ∃ listing, tree.Walks depth siblings listing := by
  induction room generalizing depth siblings with
  | zero =>
      cases siblings with
      | nil => exact ⟨[], .nil⟩
      | cons tag siblings =>
          have low := stands_lt_size (stand tag List.mem_cons_self)
          omega
  | succ room induction =>
      induction siblings with
      | nil => exact ⟨[], .nil⟩
      | cons tag siblings next =>
          obtain ⟨stands, others⟩ := List.forall_mem_cons.mp stand
          obtain ⟨below, walksBelow⟩ := induction (children_stand stands) (by omega)
          obtain ⟨rest, walksRest⟩ := next others
          exact ⟨_, .cons walksBelow walksRest⟩

section Shown

variable {tree : TagTree} {depth level : Nat} {siblings : List Tag} {tag other : Tag}
  {listing front back : List (Tag × Nat)}

/-- Every tag is listed at its own depth. -/
theorem Walks.stands (walks : tree.Walks depth siblings listing)
    (stand : ∀ tag ∈ siblings, Stands tree.tags depth tag) :
    ∀ entry ∈ listing, Stands tree.tags entry.2 entry.1 := by
  induction walks with
  | nil => simp
  | cons _ _ below rest =>
      obtain ⟨stands, others⟩ := List.forall_mem_cons.mp stand
      rw [List.forall_mem_append, List.forall_mem_cons]
      exact ⟨⟨stands, below (children_stand stands)⟩, rest others⟩

/-- A stack of siblings gives out their listing before anything that is below them in it. -/
theorem Walks.unstack (walks : tree.Walks depth siblings listing) (stack : List Tag)
    (limit : Nat) :
    tree.unstack (listing.length + limit) (siblings ++ stack) =
      listing.map Prod.fst ++ tree.unstack limit stack := by
  induction walks generalizing stack limit with
  | nil => rw [List.length_nil, Nat.zero_add, List.nil_append, List.map_nil, List.nil_append]
  | @cons depth tag siblings below rest _ _ inBelow inRest =>
      have count : ((tag, depth) :: below ++ rest).length + limit =
          below.length + (rest.length + limit) + 1 := by
        rw [List.cons_append, List.length_cons, List.length_append]
        omega
      rw [count, List.cons_append, TagTree.unstack, inBelow, inRest, List.map_append, List.map_cons,
        List.cons_append, List.cons_append, List.append_assoc]

theorem Walks.depth_le (walks : tree.Walks depth siblings listing) :
    ∀ entry ∈ listing, depth ≤ entry.2 := by
  induction walks with
  | nil => simp
  | cons _ _ below rest =>
      rw [List.forall_mem_append, List.forall_mem_cons]
      refine ⟨⟨Nat.le_refl _, fun entry inside => ?_⟩, rest⟩
      exact Nat.le_of_succ_le (below entry inside)

theorem reaches_iff_child (inside : tag ∈ tree.tags) (listed : other ∈ tree.tags) :
    ReflTransGen (HasParent tree.tags) other tag ↔
      other = tag ∨
        ∃ child ∈ tree.children tag.id, ReflTransGen (HasParent tree.tags) other child := by
  rw [ReflTransGen.cases_tail_iff, eq_comm]
  refine or_congr_right (exists_congr fun child => ?_)
  rw [mem_children inside]
  constructor
  · rintro ⟨leads, up⟩
    exact ⟨⟨Tag.mem_of_reaches listed leads, up⟩, leads⟩
  · rintro ⟨⟨-, up⟩, leads⟩
    exact ⟨leads, up⟩

/-- A listing of siblings has these and the tags below them. -/
theorem Walks.mem_iff (walks : tree.Walks depth siblings listing)
    (inside : ∀ tag ∈ siblings, tag ∈ tree.tags) :
    other ∈ listing.map Prod.fst ↔
      other ∈ tree.tags ∧ ∃ tag ∈ siblings, ReflTransGen (HasParent tree.tags) other tag := by
  induction walks with
  | nil => simp
  | @cons depth tag siblings below rest _ _ inBelow inRest =>
      obtain ⟨present, others⟩ := List.forall_mem_cons.mp inside
      have children : ∀ child ∈ tree.children tag.id, child ∈ tree.tags :=
        (ordered_children present).inside
      rw [List.map_append, List.mem_append, List.map_cons, List.mem_cons, inBelow children,
        inRest others, List.exists_mem_cons_iff]
      by_cases listed : other ∈ tree.tags
      · simp only [listed, true_and, reaches_iff_child present listed]
      · have apart : other ≠ tag := fun same => listed (same ▸ present)
        simp only [listed, apart, false_and, or_self]

theorem Walks.precedes (walks : tree.Walks depth siblings listing)
    (ordered : tree.Ordered siblings) :
    (listing.map Prod.fst).Pairwise (Precedes tree.tags) := by
  induction walks with
  | nil => exact .nil
  | @cons depth tag siblings below rest walksBelow walksRest inBelow inRest =>
      have present := ordered.inside tag List.mem_cons_self
      have children := ordered_children present
      have reached : ∀ other ∈ below.map Prod.fst,
          ∃ child ∈ tree.children tag.id, ReflTransGen (HasParent tree.tags) other child :=
        fun other member => ((walksBelow.mem_iff children.inside).mp member).2
      rw [List.map_append, List.map_cons, List.pairwise_append, List.pairwise_cons]
      refine ⟨⟨?_, inBelow children⟩, inRest ordered.tail, ?_⟩
      · intro other member
        obtain ⟨child, listed, leads⟩ := reached other member
        exact .below (.tail' leads ((mem_children present).mp listed).2)
      · intro earlier inFront later inBack
        have toTag : ReflTransGen (HasParent tree.tags) earlier tag := by
          rcases List.mem_cons.mp inFront with rfl | inFront
          · exact .refl
          · obtain ⟨child, listed, leads⟩ := reached earlier inFront
            exact leads.tail ((mem_children present).mp listed).2
        obtain ⟨-, sibling, listed, leads⟩ := (walksRest.mem_iff ordered.tail.inside).mp inBack
        obtain ⟨same, before⟩ := (List.pairwise_cons.mp ordered.pairs).1 sibling listed
        exact .beside toTag leads same before

/-- Where the parent of a tag at some depth stands before it: directly above, in that everything in
between is set in further than the parent. -/
inductive ParentBefore (tree : TagTree) (tag : Tag) : Nat → List (Tag × Nat) → Prop
  | intro {level : Nat} {parent : Tag} {front between : List (Tag × Nat)} :
      HasParent tree.tags tag parent → (∀ entry ∈ between, level + 1 ≤ entry.2) →
        ParentBefore tree tag (level + 1) (front ++ (parent, level) :: between)

theorem ParentBefore.behind (before : tree.ParentBefore tag level front)
    (earlier : List (Tag × Nat)) : tree.ParentBefore tag level (earlier ++ front) := by
  cases before with
  | intro up deeper =>
      rw [← List.append_assoc]
      exact .intro up deeper

/-- Every place of a listing: what is below the tag comes next, and the parent came before, unless
the tag is one of the siblings that are listed. -/
theorem Walks.place (walks : tree.Walks depth siblings listing)
    (inside : ∀ tag ∈ siblings, tag ∈ tree.tags)
    (here : listing = front ++ (tag, level) :: back) :
    (∃ below rest, back = below ++ rest ∧ tree.Walks (level + 1) (tree.children tag.id) below) ∧
      (level = depth ∧ tag ∈ siblings ∨ tree.ParentBefore tag level front) := by
  induction walks generalizing front back with
  | nil => simp at here
  | @cons depth first siblings below rest walksBelow _ inBelow inRest =>
      obtain ⟨present, others⟩ := List.forall_mem_cons.mp inside
      have children := ordered_children present
      rcases place_in_append here with ⟨more, rfl, later⟩ | ⟨more, early, rfl⟩
      · obtain ⟨next, before⟩ := inRest others later
        refine ⟨next, ?_⟩
        rcases before with ⟨same, sibling⟩ | before
        · exact .inl ⟨same, List.mem_cons_of_mem _ sibling⟩
        · exact .inr (before.behind _)
      · cases front with
        | nil =>
            cases early
            exact ⟨⟨below, rest, rfl, walksBelow⟩, .inl ⟨rfl, List.mem_cons_self⟩⟩
        | cons entry front =>
            rw [List.cons_append, List.cons.injEq] at early
            obtain ⟨rfl, early⟩ := early
            obtain ⟨⟨next, others, rfl, walks⟩, before⟩ := inBelow children.inside early
            refine ⟨⟨next, others ++ rest, List.append_assoc .., walks⟩, .inr ?_⟩
            rcases before with ⟨rfl, child⟩ | before
            · -- a child of the first sibling: all that is before it is below the first sibling
              have up := ((mem_children present).mp child).2
              have deeper : ∀ entry ∈ front, depth + 1 ≤ entry.2 := fun entry member =>
                walksBelow.depth_le entry (early ▸ List.mem_append_left _ member)
              rw [← List.nil_append ((first, depth) :: front)]
              exact .intro up deeper
            · exact before.behind [(first, depth)]

end Shown

end TagTree

namespace Tag

/-- A listing of tags, each set in by a depth, in the order of their hierarchy. -/
structure Hierarchical (tags : List Tag) (listing : List (Tag × Nat)) : Prop where
  once : (listing.map Prod.fst).Perm tags
  /-- Tags with the same parent, and those without one, are in the order of their names. -/
  siblings : listing.Pairwise fun earlier later =>
    SameParent tags earlier.1 later.1 → earlier.1.name < later.1.name
  roots : ∀ entry ∈ listing, (∀ parent, ¬ HasParent tags entry.1 parent) → entry.2 = 0
  depths : ∀ child ∈ listing, ∀ parent ∈ listing,
    HasParent tags child.1 parent.1 → child.2 = parent.2 + 1
  parentsFirst : ∀ front tag depth back, listing = front ++ (tag, depth) :: back →
    ∀ parent, HasParent tags tag parent → parent ∈ front.map Prod.fst
  /-- What is below a tag comes directly behind it. -/
  contiguous : ∀ front tag depth back, listing = front ++ (tag, depth) :: back →
    ∃ below rest, back = below ++ rest ∧
      ∀ other, other ∈ below.map Prod.fst ↔ other ∈ tags ∧ TransGen (HasParent tags) other tag
  /-- The parent of a tag is seen from the depths alone. -/
  shown : ∀ front tag depth back, listing = front ++ (tag, depth) :: back →
    ∀ parent, HasParent tags tag parent ↔ shownParent front depth = some parent

def lines (listing : List (Tag × Nat)) : List (String × Nat) :=
  listing.map fun entry => (entry.1.name, entry.2)

theorem shown_parent_lines (before : List (Tag × Nat)) (depth : Nat) :
    shownParent (lines before) depth = (shownParent before depth).map Tag.name :=
  shown_parent_map Tag.name before depth

section Hierarchical

variable {tags other : List Tag} {listing otherListing : List (Tag × Nat)} {tag twin : Tag}

theorem Hierarchical.parent_in_eq (shown : Hierarchical tags listing)
    (distinct : (tags.map Tag.id).Nodup) {front back : List (Tag × Nat)} {depth : Nat}
    (here : listing = front ++ (tag, depth) :: back) :
    tag.parentIn tags = shownParent front depth := by
  apply Option.ext
  intro parent
  rw [parent_in_eq_some distinct, shown.shown front tag depth back here]

/-- Listings that look alike are of tags with parents of the same names. -/
theorem Hierarchical.parent_names (shown : Hierarchical tags listing)
    (otherShown : Hierarchical other otherListing) (distinct : (tags.map Tag.id).Nodup)
    (otherDistinct : (other.map Tag.id).Nodup) (otherNames : (other.map Tag.name).Nodup)
    (alike : lines otherListing = lines listing) (inside : tag ∈ tags) (present : twin ∈ other)
    (named : twin.name = tag.name) :
    (twin.parentIn other).map Tag.name = (tag.parentIn tags).map Tag.name := by
  obtain ⟨⟨_, depth⟩, listed, rfl⟩ := List.mem_map.mp (shown.once.mem_iff.mpr inside)
  obtain ⟨front, back, here⟩ := List.append_of_mem listed
  -- the other listing has a line with the same name at the same place
  rw [lines, lines, here, List.map_append, List.map_cons] at alike
  obtain ⟨otherFront, behind, there, sameFront, sameBehind⟩ := List.map_eq_append_iff.mp alike
  obtain ⟨⟨found, foundDepth⟩, otherBack, rfl, line, -⟩ := List.map_eq_cons_iff.mp sameBehind
  obtain ⟨foundName, rfl⟩ := Prod.mk.inj line
  have foundInside : found ∈ other := by
    apply otherShown.once.mem_iff.mp
    rw [there, List.map_append, List.map_cons]
    exact List.mem_append_right _ List.mem_cons_self
  have isTwin : found = twin :=
    List.inj_on_of_nodup_map otherNames foundInside present (foundName.trans named.symm)
  subst isTwin
  rw [otherShown.parent_in_eq otherDistinct there, shown.parent_in_eq distinct here,
    ← shown_parent_lines, ← shown_parent_lines, lines, sameFront, lines]

end Hierarchical

end Tag

namespace TagTree

open Tag (HasParent Hierarchical Precedes Stands lines)

variable {tree : TagTree} {tags : List Tag} {tag : Tag} {depth : Nat}

theorem Walks.perm_of_roots {listing : List (Tag × Nat)}
    (walks : tree.Walks 0 tree.roots listing) : (listing.map Prod.fst).Perm tree.tags := by
  have listed : ∀ tag, tag ∈ listing.map Prod.fst ↔ tag ∈ tree.tags := by
    intro tag
    rw [walks.mem_iff ordered_roots.inside, and_iff_left_of_imp]
    intro inside
    obtain ⟨depth, stands⟩ := exists_stands inside
    obtain ⟨root, present, leads, top⟩ := stands.below_root
    exact ⟨root, mem_roots_iff.mpr ⟨present, top⟩, leads⟩
  have apart : (listing.map Prod.fst).Nodup := by
    refine (walks.precedes ordered_roots).imp_of_mem ?_
    intro earlier later inside _ precedes
    exact precedes.ne tree.distinct tree.acyclic ((listed earlier).mp inside)
  exact (List.perm_ext_iff_of_nodup apart (tree.distinct.of_map _)).mpr listed

/-- The roots have a listing, and it is as long as there are tags. -/
theorem exists_walks_roots (tree : TagTree) :
    ∃ listing, tree.Walks 0 tree.roots listing ∧ tree.size = listing.length := by
  obtain ⟨listing, walks⟩ := tree.exists_walks roots_stand (Nat.le_of_eq (Nat.zero_add _).symm)
  refine ⟨listing, walks, ?_⟩
  rw [size, ← walks.perm_of_roots.length_eq, List.length_map]

theorem Walks.unstack_roots {listing : List (Tag × Nat)} (walks : tree.Walks 0 tree.roots listing)
    (whole : tree.size = listing.length) (extra : Nat) :
    tree.unstack (tree.size + extra) tree.roots = listing.map Prod.fst := by
  have nothing : tree.unstack extra [] = [] := by cases extra <;> rfl
  have given := walks.unstack [] extra
  rwa [List.append_nil, nothing, List.append_nil, ← whole] at given

/-- The stack is empty when as many tags have been taken off as there are. -/
theorem unstack_ends (tree : TagTree) (extra : Nat) :
    tree.unstack (tree.size + extra) tree.roots = tree.unstack tree.size tree.roots := by
  obtain ⟨listing, walks, whole⟩ := tree.exists_walks_roots
  rw [walks.unstack_roots whole extra]
  exact (walks.unstack_roots whole 0).symm

/-- The stack gives out the listing of the roots, and every tag was reached at its depth in it. -/
theorem walks_depth_first (tree : TagTree) : tree.Walks 0 tree.roots tree.depthFirst := by
  obtain ⟨listing, walks, whole⟩ := tree.exists_walks_roots
  have order : tree.unstack tree.size tree.roots = listing.map Prod.fst :=
    walks.unstack_roots whole 0
  have depths : ∀ entry ∈ listing,
      (entry.1, Tag.depthIn (Tag.reached tree.tags) entry.1) = entry := by
    intro entry inside
    rw [Tag.depth_in_reached tree.distinct (walks.stands roots_stand entry inside)]
  have same : tree.depthFirst = listing := by
    calc tree.depthFirst
        = (listing.map Prod.fst).map fun tag =>
            (tag, Tag.depthIn (Tag.reached tree.tags) tag) := by rw [← order]; rfl
      _ = listing.map id := by rw [List.map_map]; exact List.map_congr_left depths
      _ = listing := List.map_id _
  rw [same]
  exact walks

theorem depth_first_perm (tree : TagTree) : (tree.depthFirst.map Prod.fst).Perm tree.tags :=
  tree.walks_depth_first.perm_of_roots

theorem mem_depth_first_iff : (tag, depth) ∈ tree.depthFirst ↔ Stands tree.tags depth tag := by
  have stands := tree.walks_depth_first.stands roots_stand
  constructor
  · exact stands (tag, depth)
  · intro low
    obtain ⟨⟨_, listedDepth⟩, listed, rfl⟩ :=
      List.mem_map.mp (tree.depth_first_perm.mem_iff.mpr low.mem)
    rw [low.unique tree.distinct (stands _ listed)]
    exact listed

theorem hierarchical_depth_first (tree : TagTree) : Hierarchical tree.tags tree.depthFirst where
  once := tree.depth_first_perm
  siblings := by
    have order := List.pairwise_map.mp (tree.walks_depth_first.precedes ordered_roots)
    exact order.imp fun precedes siblings =>
      precedes.name_lt tree.distinct tree.acyclic siblings
  roots := by
    intro ⟨tag, depth⟩ listed top
    have low := mem_depth_first_iff.mp listed
    exact low.unique tree.distinct (.root low.mem top)
  depths := by
    intro ⟨child, _⟩ listed ⟨parent, _⟩ listedParent up
    have low := mem_depth_first_iff.mp listed
    have above := mem_depth_first_iff.mp listedParent
    exact low.unique tree.distinct (.child low.mem up above)
  parentsFirst := by
    intro front tag depth back here parent up
    rcases (tree.walks_depth_first.place ordered_roots.inside here).2 with ⟨-, root⟩ | before
    · exact absurd up ((mem_roots_iff.mp root).2 parent)
    · cases before with
      | intro also _ =>
          rw [Tag.has_parent_unique tree.distinct up also, List.map_append, List.map_cons]
          exact List.mem_append_right _ List.mem_cons_self
  contiguous := by
    intro front tag depth back here
    obtain ⟨below, rest, rfl, walks⟩ := (tree.walks_depth_first.place ordered_roots.inside here).1
    have inside : tag ∈ tree.tags := by
      rw [← tree.depth_first_perm.mem_iff, here, List.map_append, List.map_cons]
      exact List.mem_append_right _ List.mem_cons_self
    refine ⟨below, rest, rfl, fun other => ?_⟩
    rw [walks.mem_iff (ordered_children inside).inside]
    refine and_congr_right fun listed => ?_
    rw [TransGen.tail'_iff]
    refine exists_congr fun child => ?_
    rw [mem_children inside]
    constructor
    · rintro ⟨⟨-, up⟩, leads⟩
      exact ⟨leads, up⟩
    · rintro ⟨leads, up⟩
      exact ⟨⟨Tag.mem_of_reaches listed leads, up⟩, leads⟩
  shown := by
    intro front tag depth back here parent
    rcases (tree.walks_depth_first.place ordered_roots.inside here).2 with ⟨rfl, root⟩ | before
    · rw [shown_parent_zero]
      exact iff_of_false ((mem_roots_iff.mp root).2 parent) (by simp)
    · cases before with
      | intro up deeper =>
          rw [shown_parent_of_deeper deeper, Option.some.injEq]
          constructor
          · intro also
            exact Tag.has_parent_unique tree.distinct up also
          · rintro rfl
            exact up

theorem hierarchical_of_build (built : build tags = .ok tree) :
    Hierarchical tags tree.depthFirst :=
  tags_of_build built ▸ tree.hierarchical_depth_first

/-- The depth-first listing of a tree comes to an end, with nothing left on the stack. It has every
tag once, in the order of the hierarchy, each at its depth, and what it looks like determines the
parents: in two listings that look alike, tags with the same name have parents with the same name, or
none. -/
theorem depth_first_exact (built : build tags = .ok tree) :
    (∀ extra, tree.unstack (tree.size + extra) tree.roots = tree.unstack tree.size tree.roots) ∧
      Hierarchical tags tree.depthFirst ∧
      ∀ other otherTree, build other = .ok otherTree →
        lines otherTree.depthFirst = lines tree.depthFirst →
          ∀ tag ∈ tags, ∀ twin ∈ other, twin.name = tag.name →
            (twin.parentIn other).map Tag.name = (tag.parentIn tags).map Tag.name := by
  refine ⟨tree.unstack_ends, hierarchical_of_build built, ?_⟩
  intro other otherTree otherBuilt alike tag inside twin present named
  have shown := hierarchical_of_build built
  have otherShown := hierarchical_of_build otherBuilt
  have lawful := lawful_of_build built
  have otherLawful := lawful_of_build otherBuilt
  exact shown.parent_names otherShown lawful.ids otherLawful.ids otherLawful.names alike inside
    present named

def sampleForest : List Tag :=
  [⟨4, "row-b", some 2⟩, ⟨1, "location", none⟩, ⟨2, "dc-east", some 1⟩, ⟨3, "row-a", some 2⟩,
    ⟨5, "hw", some 9⟩, ⟨6, "dc-west", some 1⟩]

def sampleTree : TagTree where
  tags := sampleForest
  distinct := by decide
  distinctNames := by decide
  unreserved := by decide
  whole := by decide

def renumberedForest : List Tag :=
  [⟨41, "dc-east", some 70⟩, ⟨12, "hw", none⟩, ⟨50, "dc-west", some 70⟩, ⟨70, "location", none⟩,
    ⟨33, "row-a", some 41⟩, ⟨9, "row-b", some 41⟩]

def renumberedTree : TagTree where
  tags := renumberedForest
  distinct := by decide
  distinctNames := by decide
  unreserved := by decide
  whole := by decide

def sampleLines : List (String × Nat) :=
  [("hw", 0), ("location", 0), ("dc-east", 1), ("row-a", 2), ("row-b", 2), ("dc-west", 1)]

theorem sample_forest_listed :
    build sampleForest = .ok sampleTree ∧ lines sampleTree.depthFirst = sampleLines ∧
      sampleTree.unstack (6 + 3) sampleTree.roots = sampleTree.unstack 6 sampleTree.roots ∧
      Hierarchical sampleForest sampleTree.depthFirst ∧
      build renumberedForest = .ok renumberedTree ∧
        lines renumberedTree.depthFirst = lines sampleTree.depthFirst ∧
          (Tag.parentIn renumberedForest ⟨33, "row-a", some 41⟩).map Tag.name =
            (Tag.parentIn sampleForest ⟨3, "row-a", some 2⟩).map Tag.name := by
  have built : build sampleForest = .ok sampleTree := sampleTree.build_tags
  have otherBuilt : build renumberedForest = .ok renumberedTree := renumberedTree.build_tags
  have listed : lines sampleTree.depthFirst = sampleLines := by decide
  have otherListed : lines renumberedTree.depthFirst = sampleLines := by decide
  have alike := otherListed.trans listed.symm
  obtain ⟨ends, shown, determined⟩ := depth_first_exact built
  exact ⟨built, listed, ends 3, shown, otherBuilt, alike,
    determined renumberedForest renumberedTree otherBuilt alike _ (by decide) _ (by decide) rfl⟩

end TagTree

end TagPolicy
