import TagPolicy.Authority.Metrics
import TagPolicy.Proofs.Cache.Exactness
import TagPolicy.Proofs.Policy.Soundness
import TagPolicy.Proofs.Store.Attempt
import TagPolicy.Settings.Basic

/-!
Looking up the cache slot of a store that may fail. A lookup hits exactly if the slot can be read and
holds a table of the expected version, and then it changes nothing. What it rejects it clears away, if
that can be written, and that is all it ever writes. So a slot that nobody fills again is rejected at
most once, and a table that was kept is found.
-/

namespace TagPolicy

open Access (answered attempt_look attempt_pure attempt_write attempt_write_fails)

namespace CacheSlot

variable {cache : CacheSlot} {faults : Faults} {contents : Contents} {text : String} {table : Table}

def Reads (cache : CacheSlot) (fault : Option StorageFault) (contents : Contents)
    (text : String) : Prop :=
  answered fault contents cache.slot = .ok (some text) ∧ Text.isBlankText text = false

/-- A text that is decoded as a table for the expected version. -/
def Admits (cache : CacheSlot) (text : String) (table : Table) : Prop :=
  Cache.decode text = .ok table ∧ table.schemaVersion = cache.schemaVersion

/-- The slot is readable and holds a text that is neither blank nor admitted. -/
def Rejects (cache : CacheSlot) (fault : Option StorageFault) (contents : Contents) : Prop :=
  ∃ text, cache.Reads fault contents text ∧ ∀ table, ¬ cache.Admits text table

theorem Reads.unique {fault : Option StorageFault} {other : String}
    (reads : cache.Reads fault contents text) (again : cache.Reads fault contents other) :
    other = text := by
  have same := reads.1.symm.trans again.1
  cases same
  rfl

theorem accept_eq_ok : cache.accept text = .ok table ↔ cache.Admits text table := by
  rw [accept, Admits]
  cases Cache.decode text with
  | error corruption => simp
  | ok found =>
      dsimp only
      by_cases version : found.schemaVersion = cache.schemaVersion
      · rw [if_pos version, Except.ok.injEq]
        exact ⟨fun same => ⟨same, same ▸ version⟩, And.left⟩
      · rw [if_neg version]
        constructor
        · intro impossible
          cases impossible
        · rintro ⟨same, expected⟩
          cases same
          exact absurd expected version

inductive Loads (cache : CacheSlot) (faults : Faults) (contents : Contents) :
    Attempt Lookup → Prop
  | nothing (empty : ∀ text, ¬ cache.Reads (faults 0) contents text) :
      Loads cache faults contents ⟨.miss none, [], contents⟩
  | hit {text : String} {table : Table} (reads : cache.Reads (faults 0) contents text)
      (admits : cache.Admits text table) : Loads cache faults contents ⟨.hit table, [], contents⟩
  | cleared {corruption : Cache.Corruption} (rejects : cache.Rejects (faults 0) contents)
      (works : faults 1 = none) :
      Loads cache faults contents
        ⟨.miss (some corruption), [(cache.slot, "")], contents.put cache.slot ""⟩
  | kept {corruption : Cache.Corruption} {fault : StorageFault}
      (rejects : cache.Rejects (faults 0) contents) (fails : faults 1 = some fault) :
      Loads cache faults contents ⟨.miss (some corruption), [], contents⟩

theorem loads_load (cache : CacheSlot) (faults : Faults) (contents : Contents) :
    cache.Loads faults contents (cache.load.attempt faults contents) := by
  rw [load, attempt_look]
  have absent : (∀ text, answered (faults 0) contents cache.slot ≠ .ok (some text)) →
      cache.Loads faults contents ⟨.miss none, [], contents⟩ := by
    intro none
    exact .nothing fun text reads => none text reads.1
  cases read : answered (faults 0) contents cache.slot with
  | error fault => exact absent (by simp [read])
  | ok found =>
      cases found with
      | none => exact absent (by simp [read])
      | some text =>
          dsimp only
          cases blank : Text.isBlankText text with
          | true =>
              refine .nothing ?_
              rintro other ⟨again, present⟩
              rw [read] at again
              cases again
              rw [blank] at present
              cases present
          | false =>
              rw [if_neg (by simp)]
              cases accepted : cache.accept text with
              | ok table => exact .hit ⟨read, blank⟩ (accept_eq_ok.mp accepted)
              | error corruption =>
                  have rejects : cache.Rejects (faults 0) contents := by
                    refine ⟨text, ⟨read, blank⟩, ?_⟩
                    intro table admits
                    rw [accept_eq_ok.mpr admits] at accepted
                    cases accepted
                  dsimp only
                  rw [clear]
                  cases second : faults.tail 0 with
                  | none =>
                      rw [attempt_write _ _ _ second]
                      exact .cleared rejects second
                  | some fault =>
                      rw [attempt_write_fails _ _ _ second]
                      exact .kept rejects second

theorem not_rejects_of_admits (reads : cache.Reads (faults 0) contents text)
    (admits : cache.Admits text table) : ¬ cache.Rejects (faults 0) contents := by
  rintro ⟨other, again, refused⟩
  cases reads.unique again
  exact refused table admits

section Loads

variable {attempt : Attempt Lookup}

theorem Loads.hit_iff (loads : cache.Loads faults contents attempt) (table : Table) :
    attempt.result = .hit table ↔
      ∃ text, cache.Reads (faults 0) contents text ∧ cache.Admits text table := by
  have missed : ∀ rejected, (∀ text, cache.Reads (faults 0) contents text →
      ¬ cache.Admits text table) → (Lookup.miss rejected = .hit table ↔
        ∃ text, cache.Reads (faults 0) contents text ∧ cache.Admits text table) := by
    intro rejected none
    constructor
    · intro impossible
      cases impossible
    · rintro ⟨text, reads, admits⟩
      exact absurd admits (none text reads)
  cases loads with
  | nothing empty => exact missed _ fun text reads => absurd reads (empty text)
  | hit reads admits =>
      constructor
      · intro same
        cases same
        exact ⟨_, reads, admits⟩
      · rintro ⟨other, again, found⟩
        cases reads.unique again
        have same := admits.1.symm.trans found.1
        cases same
        rfl
  | cleared rejects works =>
      exact missed _ fun text reads admits => not_rejects_of_admits reads admits rejects
  | kept rejects fails =>
      exact missed _ fun text reads admits => not_rejects_of_admits reads admits rejects

/-- Emptying a slot that is not blank changes it. -/
theorem put_ne_of_rejects (rejects : cache.Rejects (faults 0) contents) :
    contents.put cache.slot "" ≠ contents := by
  obtain ⟨text, ⟨read, present⟩, -⟩ := rejects
  intro same
  have emptied := Contents.answer_put_self contents cache.slot ""
  rw [same] at emptied
  cases first : faults 0 with
  | none =>
      rw [first, answered, emptied] at read
      cases read
      cases present
  | some fault =>
      rw [first, answered] at read
      cases read

theorem Loads.changes_iff (loads : cache.Loads faults contents attempt) :
    attempt.contents ≠ contents ↔ cache.Rejects (faults 0) contents ∧ faults 1 = none := by
  cases loads with
  | nothing empty =>
      refine ⟨fun changed => absurd rfl changed, ?_⟩
      rintro ⟨⟨text, reads, -⟩, -⟩
      exact absurd reads (empty text)
  | hit reads admits =>
      refine ⟨fun changed => absurd rfl changed, ?_⟩
      rintro ⟨rejects, -⟩
      exact absurd rejects (not_rejects_of_admits reads admits)
  | cleared rejects works =>
      exact iff_of_true (put_ne_of_rejects rejects) ⟨rejects, works⟩
  | kept rejects fails =>
      refine ⟨fun changed => absurd rfl changed, ?_⟩
      rintro ⟨-, works⟩
      rw [fails] at works
      cases works

theorem Loads.emptied (loads : cache.Loads faults contents attempt)
    (changed : attempt.contents ≠ contents) : attempt.contents = contents.put cache.slot "" := by
  cases loads with
  | cleared rejects works => rfl
  | nothing empty => exact absurd rfl changed
  | hit reads admits => exact absurd rfl changed
  | kept rejects fails => exact absurd rfl changed

/-- How the counters change with a lookup that hits or not, and rejects or not: as a hit or a miss, as
a corruption if it rejects, and nothing else. -/
structure Records (before after : Counters) (hits rejects : Prop) : Prop where
  hit : hits → after.cacheHits = before.cacheHits + 1 ∧ after.cacheMisses = before.cacheMisses
  miss : ¬ hits → after.cacheHits = before.cacheHits ∧ after.cacheMisses = before.cacheMisses + 1
  corruption : rejects → after.cacheCorruptions = before.cacheCorruptions + 1
  sound : ¬ rejects → after.cacheCorruptions = before.cacheCorruptions
  others : { after with
    cacheHits := before.cacheHits
    cacheMisses := before.cacheMisses
    cacheCorruptions := before.cacheCorruptions } = before

theorem Loads.records (loads : cache.Loads faults contents attempt) (counters : Counters) :
    Records counters (counters.countLookup attempt.result) (∃ table, attempt.result = .hit table)
      (cache.Rejects (faults 0) contents) := by
  have missed : ∀ rejected, ¬ ∃ table, Lookup.miss rejected = .hit table := by
    rintro rejected ⟨table, impossible⟩
    cases impossible
  cases loads with
  | nothing empty =>
      have sound : ¬ cache.Rejects (faults 0) contents := by
        rintro ⟨text, reads, -⟩
        exact empty text reads
      exact ⟨fun hit => absurd hit (missed _), fun _ => ⟨rfl, rfl⟩,
        fun rejects => absurd rejects sound, fun _ => rfl, rfl⟩
  | hit reads admits =>
      exact ⟨fun _ => ⟨rfl, rfl⟩, fun missed => absurd ⟨_, rfl⟩ missed,
        fun rejects => absurd rejects (not_rejects_of_admits reads admits), fun _ => rfl, rfl⟩
  | cleared rejects works =>
      exact ⟨fun hit => absurd hit (missed _), fun _ => ⟨rfl, rfl⟩, fun _ => rfl,
        fun sound => absurd rejects sound, rfl⟩
  | kept rejects fails =>
      exact ⟨fun hit => absurd hit (missed _), fun _ => ⟨rfl, rfl⟩, fun _ => rfl,
        fun sound => absurd rejects sound, rfl⟩

end Loads

section Rounds

/-- Lookups one after the other, each with the failures of its own accesses: what is counted, and
what the store holds after them. -/
def lookups (contents : Contents) (counters : Counters) :
    List (CacheSlot × Faults) → Counters × Contents
  | [] => (counters, contents)
  | (cache, faults) :: rounds =>
      let attempt := cache.load.attempt faults contents
      lookups attempt.contents (counters.countLookup attempt.result) rounds

/-- All lookups are of one slot, and whatever is cleared away can be written. -/
def Healing (slot : String) (rounds : List (CacheSlot × Faults)) : Prop :=
  ∀ round ∈ rounds, round.1.slot = slot ∧ round.2 1 = none

variable {slot : String} {counters : Counters} {rounds : List (CacheSlot × Faults)}

theorem not_rejects_empty {fault : Option StorageFault}
    (empty : contents.answer cache.slot = .ok (some "")) : ¬ cache.Rejects fault contents := by
  rintro ⟨text, ⟨read, present⟩, -⟩
  cases fault with
  | none =>
      rw [answered, empty] at read
      cases read
      cases present
  | some fault => cases read

/-- Nothing is rejected where there is nothing. -/
theorem corruptions_of_empty (healing : Healing slot rounds)
    (empty : contents.answer slot = .ok (some "")) :
    (lookups contents counters rounds).1.cacheCorruptions = counters.cacheCorruptions := by
  induction rounds generalizing contents counters with
  | nil => rfl
  | cons round rounds induction =>
      obtain ⟨cache, faults⟩ := round
      obtain ⟨⟨here, -⟩, later⟩ := List.forall_mem_cons.mp healing
      dsimp only at here
      subst here
      have loads := cache.loads_load faults contents
      have sound : ¬ cache.Rejects (faults 0) contents := not_rejects_empty empty
      have same : (cache.load.attempt faults contents).contents = contents :=
        Classical.byContradiction fun changed => sound (loads.changes_iff.mp changed).1
      rw [lookups, same]
      exact (induction later empty).trans ((loads.records counters).sound sound)

theorem corruptions_le (healing : Healing slot rounds) :
    (lookups contents counters rounds).1.cacheCorruptions ≤ counters.cacheCorruptions + 1 := by
  induction rounds generalizing contents counters with
  | nil => exact Nat.le_succ _
  | cons round rounds induction =>
      obtain ⟨cache, faults⟩ := round
      obtain ⟨⟨here, works⟩, later⟩ := List.forall_mem_cons.mp healing
      dsimp only at here works
      subst here
      have loads := cache.loads_load faults contents
      have records := loads.records counters
      rw [lookups]
      by_cases rejects : cache.Rejects (faults 0) contents
      · -- the slot is empty from now on
        have emptied := loads.emptied (loads.changes_iff.mpr ⟨rejects, works⟩)
        have empty := Contents.answer_put_self contents cache.slot ""
        rw [← emptied] at empty
        exact Nat.le_of_eq ((corruptions_of_empty later empty).trans (records.corruption rejects))
      · rw [← records.sound rejects]
        exact induction later

end Rounds

/-- A table that was kept is found, if it is the table of a text for the expected version. -/
theorem hit_of_stored {source : String}
    (compiled : Table.compile cache.schemaVersion source = .ok table)
    (stored : ((cache.store table).attempt faults contents).result = .ok ()) {later : Faults}
    (reads : later 0 = none) :
    (cache.load.attempt later ((cache.store table).attempt faults contents).contents).result =
      .hit table := by
  rw [store] at stored ⊢
  cases encoded : Cache.encode table with
  | error fault =>
      rw [encoded] at stored
      cases stored
  | ok text =>
      rw [encoded] at stored
      dsimp only at stored ⊢
      cases first : faults 0 with
      | some fault =>
          rw [attempt_write_fails _ _ _ first] at stored
          cases stored
      | none =>
          rw [attempt_write _ _ _ first]
          apply ((cache.loads_load _ _).hit_iff table).mpr
          refine ⟨text, ⟨?_, Cache.not_blank_of_encode encoded⟩, ?_, ?_⟩
          · rw [reads]
            exact Contents.answer_put_self contents cache.slot text
          · exact Table.decode_of_compile compiled encoded
          · exact (Table.compiles_of_compile compiled).1

/-- A lookup hits exactly if the slot is readable and holds a table of the expected version, and then
changes nothing. Otherwise it misses, and the only change is that a rejected text is cleared away, as
far as that can be written. It is counted once, and as a corruption if it rejects. Lookups of a slot
that can be cleared reject no more than once, and what was kept of a text is found again. -/
theorem lookup_heals (cache : CacheSlot) :
    (∀ (faults : Faults) (contents : Contents),
      let attempt := cache.load.attempt faults contents
      (∀ table, attempt.result = .hit table ↔
        ∃ text, cache.Reads (faults 0) contents text ∧ cache.Admits text table) ∧
      ((¬ ∃ text table, cache.Reads (faults 0) contents text ∧ cache.Admits text table) →
        ∃ rejected, attempt.result = .miss rejected) ∧
      (∀ table, attempt.result = .hit table → attempt.contents = contents) ∧
      (attempt.contents ≠ contents ↔ cache.Rejects (faults 0) contents ∧ faults 1 = none) ∧
      (attempt.contents ≠ contents → attempt.contents = contents.put cache.slot "") ∧
      ∀ counters : Counters,
        Records counters (counters.countLookup attempt.result)
          (∃ table, attempt.result = .hit table) (cache.Rejects (faults 0) contents)) ∧
    (∀ rounds contents counters, Healing cache.slot rounds →
      (lookups contents counters rounds).1.cacheCorruptions ≤ counters.cacheCorruptions + 1) ∧
    ∀ (source : String) (table : Table) (faults later : Faults) (contents : Contents),
      Table.compile cache.schemaVersion source = .ok table →
        ((cache.store table).attempt faults contents).result = .ok () → later 0 = none →
          (cache.load.attempt later
            ((cache.store table).attempt faults contents).contents).result = .hit table := by
  refine ⟨?_, ?_, ?_⟩
  · intro faults contents attempt
    have loads := cache.loads_load faults contents
    refine ⟨loads.hit_iff, ?_, ?_, loads.changes_iff, loads.emptied, loads.records⟩
    · intro none
      cases result : attempt.result with
      | miss rejected => exact ⟨rejected, rfl⟩
      | hit table =>
          obtain ⟨text, found⟩ := (loads.hit_iff table).mp result
          exact absurd ⟨text, table, found⟩ none
    · intro table hit
      obtain ⟨text, reads, admits⟩ := (loads.hit_iff table).mp hit
      exact Classical.byContradiction fun changed =>
        not_rejects_of_admits reads admits (loads.changes_iff.mp changed).1
  · intro rounds contents counters healing
    exact corruptions_le healing
  · intro source table faults later contents compiled stored reads
    exact hit_of_stored compiled stored reads

def garbledSlot : Contents := Contents.put .empty "RackCodeCache" "x"

theorem garbled_slot_heals_and_keeps :
    let cache : CacheSlot := ⟨"RackCodeCache", currentSchemaVersion⟩
    let healed := cache.load.attempt (fun _ => none) garbledSlot
    cache.Rejects none garbledSlot ∧
      healed.contents = garbledSlot.put "RackCodeCache" "" ∧
      (lookups garbledSlot .zero [(cache, fun _ => none), (cache, fun _ => none)]).1.cacheCorruptions
        ≤ 1 ∧
      ∃ table, Table.compile currentSchemaVersion "allow true" = .ok table ∧
        ((cache.store table).attempt (fun _ => none) healed.contents).result = .ok () ∧
        (cache.load.attempt (fun _ => none)
          ((cache.store table).attempt (fun _ => none) healed.contents).contents).result =
            .hit table := by
  have fits : ((Table.compile currentSchemaVersion "allow true").toOption.any
      fun table => decide ((Layout.writeTable table).length + 47 ≤ Cache.maxOctets)) = true := by
    decide +kernel
  intro cache healed
  obtain ⟨looks, rejectedOnce, kept⟩ := lookup_heals cache
  have rejects : cache.Rejects none garbledSlot := by
    refine ⟨"x", ⟨?_, by decide⟩, ?_⟩
    · exact Contents.answer_put_self .empty "RackCodeCache" "x"
    · rintro table ⟨decoded, -⟩
      have refused : (Cache.decode "x").toOption.isNone = true := by decide +kernel
      rw [decoded] at refused
      cases refused
  obtain ⟨-, -, -, changes, emptied, -⟩ := looks (fun _ => none) garbledSlot
  refine ⟨rejects, emptied (changes.mpr ⟨rejects, rfl⟩), ?_, ?_⟩
  · refine rejectedOnce _ garbledSlot .zero ?_
    intro round here
    simp only [List.mem_cons, List.not_mem_nil, or_false, or_self] at here
    subst here
    exact ⟨rfl, rfl⟩
  · cases compiled : Table.compile currentSchemaVersion "allow true" with
    | error failure =>
        rw [compiled] at fits
        cases fits
    | ok table =>
        rw [compiled] at fits
        obtain ⟨text, encoded⟩ := Cache.encode_of_short table (of_decide_eq_true fits)
        have stored : ((cache.store table).attempt (fun _ => none) healed.contents).result =
            .ok () := by
          rw [store, encoded]
          rfl
        exact ⟨table, rfl, stored, kept _ table _ _ _ compiled stored rfl⟩

end CacheSlot

end TagPolicy
