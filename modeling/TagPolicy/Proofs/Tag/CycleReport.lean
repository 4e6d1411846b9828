import Mathlib.Dynamics.PeriodicPts.Defs
import TagPolicy.Failure
import TagPolicy.Proofs.Tag.Closure

/-!
The cycle that is reported. From a tag that the traversal from the roots did not reach there is
always a parent to go on to, and that was not reached either. Since there are only so many tags, one
of them is met again; it is on the cycle, and going on from there until it is met once more goes
around once. Listing a cycle from another of its tags does not change the cycle, so the report is
one, and the only one that begins where it does.
-/

namespace TagPolicy

open Function (IsPeriodicPt iterate_add_apply iterate_succ_apply iterate_succ_apply' minimalPeriod
  periodicOrbit periodicPts)
open Relation (ReflTransGen TransGen)

namespace Tag

variable {tags other : List Tag} {tag start met : Tag}

/-- The parent of a tag, or the tag itself if it has none. -/
def above (tags : List Tag) (tag : Tag) : Tag := (tag.parentIn tags).getD tag

/-- The tags met in a number of steps, the last of them first. -/
def trail (tags : List Tag) (start : Tag) (steps : Nat) : List Tag :=
  ((List.range steps).map fun earlier => (above tags)^[earlier] start).reverse

theorem mem_trail {steps : Nat} :
    tag ∈ trail tags start steps ↔ ∃ earlier < steps, (above tags)^[earlier] start = tag := by
  rw [trail, List.mem_reverse, List.mem_map]
  simp only [List.mem_range]

theorem trail_succ (tags : List Tag) (start : Tag) (steps : Nat) :
    trail tags start (steps + 1) = (above tags)^[steps] start :: trail tags start steps := by
  rw [trail, List.range_succ, List.map_append, List.reverse_append]
  rfl

section Distinct

variable (distinct : (tags.map Tag.id).Nodup)

include distinct

theorem Endless.step (endless : Endless tags tag) :
    HasParent tags tag (above tags tag) ∧ Endless tags (above tags tag) := by
  obtain ⟨parent, up, onward⟩ := endless.up
  have same : above tags tag = parent := by
    rw [above, (parent_in_eq_some distinct).mpr up, Option.getD_some]
  rw [same]
  exact ⟨up, onward⟩

theorem Endless.iterate (endless : Endless tags tag) (steps : Nat) :
    Endless tags ((above tags)^[steps] tag) := by
  induction steps with
  | zero => exact endless
  | succ steps induction =>
      rw [iterate_succ_apply']
      exact (induction.step distinct).2

theorem Endless.has_parent_iterate (endless : Endless tags tag) (steps : Nat) :
    HasParent tags ((above tags)^[steps] tag) ((above tags)^[steps + 1] tag) := by
  rw [iterate_succ_apply']
  exact ((endless.iterate distinct steps).step distinct).1

theorem Endless.reaches_iterate (endless : Endless tags tag) (steps : Nat) :
    ReflTransGen (HasParent tags) tag ((above tags)^[steps] tag) := by
  induction steps with
  | zero => exact .refl
  | succ steps induction => exact induction.tail (endless.has_parent_iterate distinct steps)

theorem Endless.iterate_mem (endless : Endless tags tag) (inside : tag ∈ tags) (steps : Nat) :
    (above tags)^[steps] tag ∈ tags :=
  mem_of_reaches inside (endless.reaches_iterate distinct steps)

theorem Endless.length_trail_le (endless : Endless tags start) (inside : start ∈ tags) {steps : Nat}
    (apart : (trail tags start steps).Nodup) : steps ≤ tags.length := by
  have listed : trail tags start steps ⊆ tags := by
    intro tag member
    obtain ⟨earlier, -, rfl⟩ := mem_trail.mp member
    exact endless.iterate_mem distinct inside earlier
  have few := (List.subperm_of_subset apart listed).length_le
  rwa [trail, List.length_reverse, List.length_map, List.length_range] at few

/-- The parents do not end, and before the limit is reached one of them has been met already. From
there the way goes around, in no more steps than there are tags. -/
theorem Endless.met_again_trail (endless : Endless tags start) (inside : start ∈ tags)
    {steps limit : Nat} (apart : (trail tags start steps).Nodup)
    (room : tags.length < steps + limit) :
    ∃ total period, 0 < period ∧ period ≤ tags.length ∧
      metAgain tags limit (trail tags start steps) ((above tags)^[steps] start) =
        some ((above tags)^[total] start) ∧
      IsPeriodicPt (above tags) period ((above tags)^[total] start) := by
  induction limit generalizing steps with
  | zero =>
      have few := endless.length_trail_le distinct inside apart
      omega
  | succ limit induction =>
      rw [metAgain]
      by_cases again : (above tags)^[steps] start ∈ trail tags start steps
      · obtain ⟨earlier, before, same⟩ := mem_trail.mp again
        have few := endless.length_trail_le distinct inside apart
        refine ⟨steps, steps - earlier, by omega, by omega, if_pos again, ?_⟩
        calc (above tags)^[steps - earlier] ((above tags)^[steps] start)
            = (above tags)^[steps - earlier] ((above tags)^[earlier] start) := by rw [same]
          _ = (above tags)^[steps] start := by
              rw [← iterate_add_apply, Nat.sub_add_cancel (Nat.le_of_lt before)]
      · have up := endless.has_parent_iterate distinct steps
        have onward : (trail tags start (steps + 1)).Nodup := by
          rw [trail_succ]
          exact List.nodup_cons.mpr ⟨again, apart⟩
        rw [if_neg again, (parent_in_eq_some distinct).mpr up, Option.bind_some, ← trail_succ]
        exact induction onward (by omega)

theorem Endless.met_again_eq (endless : Endless tags start) (inside : start ∈ tags) :
    ∃ total period, 0 < period ∧ period ≤ tags.length ∧
      metAgain tags (tags.length + 1) [] start = some ((above tags)^[total] start) ∧
      IsPeriodicPt (above tags) period ((above tags)^[total] start) := by
  have nothing : (trail tags start 0).Nodup := List.nodup_nil
  exact endless.met_again_trail distinct inside nothing (by omega)

/-- Tags are collected until the cycle closes. -/
theorem Endless.up_to_eq (endless : Endless tags met) (inside : met ∈ tags) {steps limit : Nat}
    (started : 0 < steps) (within : steps ≤ minimalPeriod (above tags) met)
    (room : minimalPeriod (above tags) met - steps < limit) :
    upTo tags met.id limit (some ((above tags)^[steps] met)) =
      (List.range' steps (minimalPeriod (above tags) met - steps)).map
        fun steps => (above tags)^[steps] met := by
  induction limit generalizing steps with
  | zero => omega
  | succ limit induction =>
      rw [upTo]
      rcases Nat.eq_or_lt_of_le within with closed | notYet
      · have back : (above tags)^[steps] met = met := by
          rw [closed]
          exact Function.iterate_minimalPeriod
        rw [if_pos (congrArg Tag.id back), closed, Nat.sub_self]
        rfl
      · have onward : (above tags)^[steps] met ≠ met := by
          intro back
          have returns : IsPeriodicPt (above tags) steps met := back
          have small := returns.minimalPeriod_le started
          omega
        have apart : ((above tags)^[steps] met).id ≠ met.id := fun same =>
          onward (eq_of_id_eq distinct (endless.iterate_mem distinct inside steps) inside same)
        have up := endless.has_parent_iterate distinct steps
        have rest : minimalPeriod (above tags) met - steps =
            minimalPeriod (above tags) met - (steps + 1) + 1 := by omega
        rw [if_neg apart, (parent_in_eq_some distinct).mpr up, rest, List.range'_succ,
          List.map_cons, induction (Nat.succ_pos steps) notYet (by omega)]

theorem Endless.once_around (endless : Endless tags met) (inside : met ∈ tags)
    (returns : met ∈ periodicPts (above tags))
    (room : minimalPeriod (above tags) met ≤ tags.length) :
    met :: upTo tags met.id tags.length (met.parentIn tags) =
      (List.range (minimalPeriod (above tags) met)).map fun steps => (above tags)^[steps] met := by
  have positive := Function.minimalPeriod_pos_of_mem_periodicPts returns
  have up : met.parentIn tags = some ((above tags)^[1] met) :=
    (parent_in_eq_some distinct).mpr (endless.has_parent_iterate distinct 0)
  have split : minimalPeriod (above tags) met = minimalPeriod (above tags) met - 1 + 1 := by omega
  rw [up, endless.up_to_eq distinct inside Nat.one_pos positive (by omega), List.range_eq_range',
    split, List.range'_succ, List.map_cons]
  rfl

structure LeadsInto (tags : List Tag) (start : Tag) (cycle : Cycle Tag) : Prop where
  nodup : cycle.Nodup
  chain : cycle.Chain (HasParent tags)
  reached : ∀ tag ∈ cycle, ReflTransGen (HasParent tags) start tag

theorem Endless.leads_into (endless : Endless tags start) (inside : start ∈ tags) :
    ∃ entry, metAgain tags (tags.length + 1) [] start = some entry ∧
      LeadsInto tags start (cycleFrom tags entry) := by
  obtain ⟨total, period, positive, few, again, around⟩ := endless.met_again_eq distinct inside
  refine ⟨_, again, ?_⟩
  have returns : (above tags)^[total] start ∈ periodicPts (above tags) :=
    ⟨period, positive, around⟩
  have room := Nat.le_trans (around.minimalPeriod_le positive) few
  have onward := endless.iterate distinct total
  have listed := endless.iterate_mem distinct inside total
  have whole : (cycleFrom tags ((above tags)^[total] start) : Cycle Tag) =
      periodicOrbit (above tags) ((above tags)^[total] start) := by
    rw [cycleFrom, onward.once_around distinct listed returns room]
    rfl
  rw [whole]
  refine ⟨Function.nodup_periodicOrbit, ?_, ?_⟩
  · rw [Function.periodicOrbit_chain' _ returns]
    exact onward.has_parent_iterate distinct
  · intro tag member
    obtain ⟨steps, rfl⟩ := (Function.mem_periodicOrbit_iff returns).mp member
    exact (endless.reaches_iterate distinct total).trans (onward.reaches_iterate distinct steps)

end Distinct

section Smallest

theorem smallest_mem (first : Tag) (rest : List Tag) : smallest first rest ∈ first :: rest := by
  induction rest generalizing first with
  | nil => exact List.mem_singleton_self first
  | cons tag rest induction =>
      have step : smallest first (tag :: rest) =
          smallest (if tag.id < first.id then tag else first) rest := rfl
      rw [step]
      split
      · exact List.mem_cons_of_mem _ (induction tag)
      · rcases List.mem_cons.mp (induction first) with same | inside
        · rw [same]
          exact List.mem_cons_self
        · exact List.mem_cons_of_mem _ (List.mem_cons_of_mem _ inside)

theorem smallest_le (first : Tag) (rest : List Tag) :
    ∀ tag ∈ first :: rest, (smallest first rest).id ≤ tag.id := by
  induction rest generalizing first with
  | nil => simp [smallest]
  | cons tag rest induction =>
      have step : smallest first (tag :: rest) =
          smallest (if tag.id < first.id then tag else first) rest := rfl
      have least : (if tag.id < first.id then tag else first).id ≤ first.id ∧
          (if tag.id < first.id then tag else first).id ≤ tag.id := by
        split
        · rename_i below
          exact ⟨UInt32.le_of_lt below, UInt32.le_refl _⟩
        · rename_i notBelow
          exact ⟨UInt32.le_refl _, UInt32.not_lt.mp notBelow⟩
      obtain ⟨head, others⟩ := List.forall_mem_cons.mp
        (induction (if tag.id < first.id then tag else first))
      rw [step]
      refine List.forall_mem_cons.mpr ⟨UInt32.le_trans head least.1, ?_⟩
      exact List.forall_mem_cons.mpr ⟨UInt32.le_trans head least.2, others⟩

/-- A cycle listed from its smallest id is the same cycle. -/
theorem around_from_smallest_eq {first : Tag} {rest : List Tag}
    (distinct : ((first :: rest).map Tag.id).Nodup) :
    ∃ least others, aroundFromSmallest (first :: rest) = least :: others ++ [least] ∧
      (least :: others) ~r (first :: rest) ∧ ∀ tag ∈ first :: rest, least.id ≤ tag.id := by
  obtain ⟨front, back, split⟩ := List.append_of_mem (smallest_mem first rest)
  have least := smallest_le first rest
  have shape : aroundFromSmallest (first :: rest) =
      (first :: rest).dropWhile (fun tag => tag.id ≠ (smallest first rest).id) ++
        (first :: rest).takeWhile (fun tag => tag.id ≠ (smallest first rest).id) ++
          [smallest first rest] := rfl
  generalize smallest first rest = start at split least shape
  rw [split] at distinct shape ⊢
  rw [List.map_append, List.map_cons, List.nodup_append] at distinct
  have others : ∀ tag ∈ front, decide (tag.id ≠ start.id) = true := by
    intro tag inside
    apply decide_eq_true
    exact distinct.2.2 tag.id (List.mem_map_of_mem inside) start.id List.mem_cons_self
  rw [List.dropWhile_append_of_pos others, List.takeWhile_append_of_pos others,
    List.dropWhile_cons_of_neg (by simp), List.takeWhile_cons_of_neg (by simp),
    List.append_nil] at shape
  refine ⟨start, back ++ front, shape, ?_, split ▸ least⟩
  rw [← List.cons_append]
  exact List.isRotated_append

end Smallest

/-- What is reported of listed tags: a tag, and the others that are met before it is met again. -/
structure Reported (tags : List Tag) (least : Tag) (others : List Tag) : Prop where
  distinct : (least :: others).Nodup
  /-- Each tag is followed by its parent. -/
  around : (least :: others ++ [least]).IsChain (HasParent tags)
  smallest : ∀ tag ∈ others, least.id < tag.id
  /-- Of all tags on a cycle or below one, the parents of that with the smallest id lead here. -/
  start : ∃ start ∈ tags, Endless tags start ∧
    (∀ other ∈ tags, Endless tags other → start.id ≤ other.id) ∧
      ReflTransGen (HasParent tags) start least

section Reports

variable {least : Tag} {others : List Tag}

theorem Reported.congr (same : other.Perm tags) (reported : Reported other least others) :
    Reported tags least others := by
  have parents := has_parent_congr same
  obtain ⟨distinct, around, smallest, start⟩ := reported
  simp only [Endless, parents, same.mem_iff] at around start
  exact ⟨distinct, around, smallest, start⟩

theorem Reported.pairwise (reported : Reported tags least others) :
    (least :: others ++ [least]).Pairwise (TransGen (HasParent tags)) :=
  (reported.around.imp fun _ _ up => TransGen.single up).pairwise

theorem Reported.returns (reported : Reported tags least others) (member : tag ∈ least :: others) :
    TransGen (HasParent tags) tag least :=
  (List.pairwise_append.mp reported.pairwise).2.2 tag member least List.mem_cons_self

theorem Reported.mem (reported : Reported tags least others) (member : tag ∈ least :: others) :
    tag ∈ tags := by
  have below : ∃ child, TransGen (HasParent tags) child tag := by
    rcases List.mem_cons.mp member with rfl | member
    · exact ⟨_, reported.returns List.mem_cons_self⟩
    · have leads := reported.pairwise
      rw [List.cons_append, List.pairwise_cons] at leads
      exact ⟨least, leads.1 tag (List.mem_append_left _ member)⟩
  obtain ⟨child, leads⟩ := below
  obtain ⟨last, -, up⟩ := TransGen.tail'_iff.mp leads
  exact up.1

variable (distinct : (tags.map Tag.id).Nodup)

include distinct

/-- The cycle that the parents of a tag lead into, from its smallest id. -/
theorem Endless.reported (endless : Endless tags start) (inside : start ∈ tags)
    (minimal : ∀ other ∈ tags, Endless tags other → start.id ≤ other.id) :
    ∃ entry, metAgain tags (tags.length + 1) [] start = some entry ∧
      ∃ least others, Reported tags least others ∧
        aroundFromSmallest (cycleFrom tags entry) = least :: others ++ [least] := by
  obtain ⟨entry, again, leads⟩ := endless.leads_into distinct inside
  refine ⟨entry, again, ?_⟩
  have apart : ((cycleFrom tags entry).map Tag.id).Nodup := by
    refine (Cycle.nodup_coe_iff.mp leads.nodup).map_on ?_
    intro left inLeft right inRight same
    exact eq_of_id_eq distinct (mem_of_reaches inside (leads.reached left inLeft))
      (mem_of_reaches inside (leads.reached right inRight)) same
  have shape : ∃ head tail, cycleFrom tags entry = head :: tail := ⟨_, _, rfl⟩
  obtain ⟨head, tail, shape⟩ := shape
  rw [shape] at leads apart ⊢
  obtain ⟨least, others, same, turned, below⟩ := around_from_smallest_eq apart
  -- the same cycle, from another of its tags
  rw [← Cycle.coe_eq_coe.mpr turned] at leads
  have unrepeated := Cycle.nodup_coe_iff.mp leads.nodup
  refine ⟨least, others, ⟨unrepeated, ?_, ?_, ?_⟩, same⟩
  · exact (Cycle.chain_coe_cons _ least others).mp leads.chain
  · intro tag member
    have listed := turned.mem_iff.mp (List.mem_cons_of_mem least member)
    have idApart : least.id ≠ tag.id := by
      intro equal
      have equalTags : least = tag :=
        List.inj_on_of_nodup_map apart (turned.mem_iff.mp List.mem_cons_self) listed equal
      exact (List.nodup_cons.mp unrepeated).1 (equalTags ▸ member)
    exact UInt32.lt_of_le_of_ne (below tag listed) idApart
  · exact ⟨start, inside, endless, minimal, leads.reached least List.mem_cons_self⟩

theorem cycle_names_reported (cyclic : ¬ Acyclic tags) :
    ∃ least others, Reported tags least others ∧
      cycleNames tags = (least :: others ++ [least]).map Tag.name := by
  have mem_iff : ∀ tag, tag ∈ tags.filter (fun tag => tag ∉ (reached tags).map Prod.fst) ↔
      tag ∈ tags ∧ Endless tags tag := by
    intro tag
    rw [List.mem_filter, decide_eq_true_eq, mem_visited distinct, not_and, Classical.not_not]
    exact and_congr_right fun inside => forall_prop_of_true inside
  rw [cycleNames]
  generalize tags.filter (fun tag => tag ∉ (reached tags).map Prod.fst) = missed at mem_iff ⊢
  cases missed with
  | nil =>
      refine absurd (acyclic_iff_none_endless.mpr fun tag inside endless => ?_) cyclic
      exact List.not_mem_nil ((mem_iff tag).mpr ⟨inside, endless⟩)
  | cons first rest =>
      obtain ⟨inside, endless⟩ := (mem_iff _).mp (smallest_mem first rest)
      have minimal : ∀ other ∈ tags, Endless tags other → (smallest first rest).id ≤ other.id := by
        intro other listed below
        exact smallest_le first rest other ((mem_iff other).mpr ⟨listed, below⟩)
      obtain ⟨entry, again, least, others, reported, same⟩ :=
        endless.reported distinct inside minimal
      dsimp only
      rw [again]
      exact ⟨least, others, reported, congrArg (List.map Tag.name) same⟩

omit distinct in
/-- A way up that comes to its first tag again, and not before its end, is the only such way. -/
theorem eq_of_chains (unique : Relator.RightUnique (HasParent tags)) {last : Tag}
    {first second : List Tag} (one : (tag :: first ++ [last]).IsChain (HasParent tags))
    (two : (tag :: second ++ [last]).IsChain (HasParent tags)) (notFirst : last ∉ first)
    (notSecond : last ∉ second) : first = second := by
  induction first generalizing tag second with
  | nil =>
      cases second with
      | nil => rfl
      | cons next second =>
          cases unique (List.isChain_cons_cons.mp one).1 (List.isChain_cons_cons.mp two).1
          exact absurd List.mem_cons_self notSecond
  | cons next first induction =>
      cases second with
      | nil =>
          cases unique (List.isChain_cons_cons.mp one).1 (List.isChain_cons_cons.mp two).1
          exact absurd List.mem_cons_self notFirst
      | cons other second =>
          obtain ⟨up, one⟩ := List.isChain_cons_cons.mp one
          obtain ⟨also, two⟩ := List.isChain_cons_cons.mp two
          cases unique up also
          rw [induction one two (List.not_mem_of_not_mem_cons notFirst)
            (List.not_mem_of_not_mem_cons notSecond)]

/-- Whatever is above a reported tag is reported. -/
theorem Reported.closed (reported : Reported tags least others)
    (leads : ReflTransGen (HasParent tags) least tag) : tag ∈ least :: others := by
  induction leads with
  | refl => exact List.mem_cons_self
  | @tail low parent _ up member =>
      obtain ⟨front, back, split⟩ := List.append_of_mem member
      have around := reported.around
      rw [split, List.append_assoc] at around
      have onward : (low :: back ++ [least]).IsChain (HasParent tags) := around.right_of_append
      cases back with
      | nil =>
          cases has_parent_unique distinct up (List.isChain_cons_cons.mp onward).1
          exact List.mem_cons_self
      | cons next back =>
          cases has_parent_unique distinct up (List.isChain_cons_cons.mp onward).1
          rw [split]
          exact List.mem_append_right _ (List.mem_cons_of_mem _ List.mem_cons_self)

theorem Reported.id_le (reported : Reported tags least others)
    (leads : ReflTransGen (HasParent tags) least tag) : least.id ≤ tag.id := by
  rcases List.mem_cons.mp (reported.closed distinct leads) with rfl | member
  · exact UInt32.le_refl _
  · exact UInt32.le_of_lt (reported.smallest tag member)

/-- There is one report. -/
theorem Reported.unique {found : Tag} {rest : List Tag} (one : Reported tags least others)
    (two : Reported tags found rest) : found = least ∧ rest = others := by
  obtain ⟨start, inside, endless, minimal, toLeast⟩ := one.start
  obtain ⟨other, listed, alsoEndless, alsoMinimal, toFound⟩ := two.start
  have sameStart : start = other := by
    apply eq_of_id_eq distinct inside listed
    exact UInt32.le_antisymm (minimal other listed alsoEndless) (alsoMinimal start inside endless)
  subst sameStart
  have sameId : found.id = least.id := by
    rcases ReflTransGen.total_of_right_unique (has_parent_unique distinct) toLeast toFound with
      onward | onward
    · have back := one.returns (one.closed distinct onward)
      exact UInt32.le_antisymm (two.id_le distinct back.to_reflTransGen) (one.id_le distinct onward)
    · have back := two.returns (two.closed distinct onward)
      exact UInt32.le_antisymm (two.id_le distinct onward) (one.id_le distinct back.to_reflTransGen)
  have same : found = least := eq_of_id_eq distinct (two.mem List.mem_cons_self)
    (one.mem List.mem_cons_self) sameId
  subst same
  exact ⟨rfl, eq_of_chains (has_parent_unique distinct) two.around one.around
    (List.nodup_cons.mp two.distinct).1 (List.nodup_cons.mp one.distinct).1⟩

end Reports

end Tag

namespace TagTree

open Tag (Acyclic Endless HasParent Lawful Reported cycle_names_reported)

variable {tags : List Tag} {names : List String}

/-- Names of two or more tags, with arrows between them. -/
theorem intercalate_ne_placeholder (first second : String) (rest : List String) :
    " -> ".intercalate (first :: second :: rest) ≠ "unknown cycle" := by
  intro same
  have arrow : '>' ∈ (" -> ".intercalate (first :: second :: rest)).toList := by
    rw [String.intercalate_cons_cons, String.toList_append, String.toList_append]
    exact List.mem_append_left _ (List.mem_append_right _ (by decide))
  rw [same] at arrow
  exact absurd arrow (by decide)

/-- A cycle that is reported is one: each of the named tags is followed by its parent, the first is
named again at the end and has the smallest id, no other is named twice, and of all tags on cycles
or below them it is the one with the smallest id whose parents lead there. There is no other such
cycle, and what is said where no cycle is found is never said. -/
theorem cycle_report_exact (reported : build tags = .error (.cycle names)) :
    ∃ least others, Reported tags least others ∧
      names = (least :: others ++ [least]).map Tag.name ∧
      (Failure.tree (.cycle names)).message = "Tag hierarchy cycle: " ++ " -> ".intercalate names ∧
      " -> ".intercalate names ≠ "unknown cycle" ∧
      ∀ found rest, Reported tags found rest → found = least ∧ rest = others := by
  obtain ⟨lawful, cyclic⟩ := (build_outcomes tags).2.2.mp ⟨names, reported⟩
  obtain ⟨least, others, described, same⟩ := cycle_names_reported lawful.ids cyclic
  rw [build_of_cyclic lawful cyclic, same] at reported
  cases reported
  refine ⟨least, others, described, rfl, rfl, ?_, ?_⟩
  · cases others with
    | nil => exact intercalate_ne_placeholder least.name least.name []
    | cons next others => exact intercalate_ne_placeholder least.name next.name _
  · intro found rest also
    exact described.unique lawful.ids also

/-- Two cycles. The smallest id on one or below one hangs below the cycle that does not have the
smaller ids. -/
def tangledTags : List Tag :=
  [⟨3, "x", some 8⟩, ⟨5, "five", some 6⟩, ⟨6, "six", some 4⟩, ⟨1, "free", none⟩,
    ⟨2, "hang", some 5⟩, ⟨8, "y", some 3⟩, ⟨4, "four", some 5⟩]

theorem tangled_tags_reported :
    build tangledTags = .error (.cycle ["four", "five", "six", "four"]) ∧
      (Failure.tree (.cycle ["four", "five", "six", "four"])).message =
        "Tag hierarchy cycle: four -> five -> six -> four" ∧
      ∃ least others, Reported tangledTags least others ∧
        ["four", "five", "six", "four"] = (least :: others ++ [least]).map Tag.name ∧
          ∀ found rest, Reported tangledTags found rest → found = least ∧ rest = others := by
  have lawful : Lawful tangledTags := ⟨by decide, by decide, by decide⟩
  have cyclic : ¬ Acyclic tangledTags := by
    rw [Tag.acyclic_iff_rooted lawful.ids]
    decide
  have names : Tag.cycleNames tangledTags = ["four", "five", "six", "four"] := by decide
  have refused : build tangledTags = .error (.cycle ["four", "five", "six", "four"]) := by
    rw [build_of_cyclic lawful cyclic, names]
  obtain ⟨least, others, described, same, -, -, only⟩ := cycle_report_exact refused
  exact ⟨refused, by decide, least, others, described, same, only⟩

end TagTree

end TagPolicy
