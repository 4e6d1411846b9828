import TagPolicy.Authority.Basic
import TagPolicy.Proofs.Cache.Roundtrip
import TagPolicy.Proofs.Store.Contents

/-!
Coherent stores: a table that the cache slot would give is the table of the rule text. The cache slot
does not say which text its table comes from, so this rests on what is written and in which order.
-/

namespace TagPolicy

theorem CacheSlot.perform_load_eq_hit {cache : CacheSlot} {contents : Contents} {table : Table} :
    (cache.load.perform contents).1 = .hit table ↔
      ∃ text, contents.answer cache.slot = .ok (some text) ∧ Text.isBlankText text = false ∧
        cache.accept text = .ok table := by
  simp only [CacheSlot.load, Access.read, bind, Access.andThen, Access.perform]
  cases contents.answer cache.slot with
  | error fault => simp [pure, Access.perform]
  | ok found =>
      cases found with
      | none => simp [pure, Access.perform]
      | some text =>
          cases blank : Text.isBlankText text with
          | true => simp [pure, Access.perform, blank]
          | false =>
              cases accepted : cache.accept text with
              | ok table => simp [pure, Access.perform, blank, accepted]
              | error corruption =>
                  simp [pure, Access.andThen, CacheSlot.clear, Access.write, Access.perform,
                    blank, accepted]

namespace EngineSettings

variable {settings : EngineSettings} {contents after : Contents}

/-- The table of the rule text in a store; a store without rule text has the empty one. -/
def ruleTable (settings : EngineSettings) (contents : Contents) : Except Failure Table :=
  match contents.answer settings.ruleSlot with
  | .error fault => .error (.storage fault)
  | .ok text => Table.compile settings.schemaVersion (text.getD "")

/-- A table that would be taken from the cache slot is the table of the rule text. -/
def Coherent (settings : EngineSettings) (contents : Contents) : Prop :=
  ∀ table, (settings.cache.load.perform contents).1 = .hit table →
    settings.ruleTable contents = .ok table

theorem distinct_of_valid (valid : settings.fault? = none) :
    settings.ruleSlot ≠ settings.cacheSlot ∧ settings.ruleSlot ≠ settings.versionSlot ∧
      settings.cacheSlot ≠ settings.versionSlot := by
  rw [fault?] at valid
  split at valid
  · cases valid
  · split at valid
    · cases valid
    · split at valid
      · cases valid
      · rename_i distinct
        simpa only [not_or] using distinct

theorem rule_table_congr
    (same : after.answer settings.ruleSlot = contents.answer settings.ruleSlot) :
    settings.ruleTable after = settings.ruleTable contents := by
  rw [ruleTable, same]
  rfl

theorem rule_table_put {text : String} :
    settings.ruleTable (contents.put settings.ruleSlot text) =
      Table.compile settings.schemaVersion text := by
  rw [ruleTable, Contents.answer_put_self]
  rfl

/-- Nothing is taken from a cache slot that was never written or emptied. -/
theorem coherent_of_no_text
    (empty : ∀ text, contents.answer settings.cacheSlot = .ok (some text) →
      Text.isBlankText text = true) : settings.Coherent contents := by
  intro table hit
  obtain ⟨text, found, present, -⟩ := CacheSlot.perform_load_eq_hit.mp hit
  rw [empty text found] at present
  cases present

theorem coherent_of_empty (empty : contents.answer settings.cacheSlot = .ok (some "")) :
    settings.Coherent contents := by
  apply coherent_of_no_text
  intro text found
  rw [empty] at found
  cases found
  rfl

theorem Coherent.congr (coherent : settings.Coherent contents)
    (sameCache : after.answer settings.cacheSlot = contents.answer settings.cacheSlot)
    (sameRules : after.answer settings.ruleSlot = contents.answer settings.ruleSlot) :
    settings.Coherent after := by
  intro table hit
  obtain ⟨text, found, present, accepted⟩ := CacheSlot.perform_load_eq_hit.mp hit
  rw [rule_table_congr sameRules]
  apply coherent
  exact CacheSlot.perform_load_eq_hit.mpr ⟨text, sameCache.symm.trans found, present, accepted⟩

theorem eq_of_accept_encode {table other : Table} {text : String}
    (encoded : Cache.encode table = .ok text) (accepted : settings.cache.accept text = .ok other) :
    other = table := by
  rw [CacheSlot.accept] at accepted
  cases decoded : Cache.decode text with
  | error corruption =>
      rw [decoded] at accepted
      cases accepted
  | ok kept =>
      rw [decoded] at accepted
      dsimp only at accepted
      split at accepted
      · cases accepted
        exact Cache.eq_of_decode_encode encoded decoded
      · cases accepted

/-- The cache slot may hold the text of the table of the rule text. -/
theorem coherent_of_filled {table : Table} {text : String}
    (encoded : Cache.encode table = .ok text)
    (filled : contents.answer settings.cacheSlot = .ok (some text))
    (compiled : settings.ruleTable contents = .ok table) : settings.Coherent contents := by
  intro other hit
  obtain ⟨found, answered, -, accepted⟩ := CacheSlot.perform_load_eq_hit.mp hit
  have same : settings.cache.slot = settings.cacheSlot := rfl
  rw [same, filled] at answered
  cases answered
  rw [compiled, eq_of_accept_encode encoded accepted]

end EngineSettings

end TagPolicy
