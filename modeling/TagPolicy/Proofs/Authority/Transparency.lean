import TagPolicy.Proofs.Authority.Coherence
import TagPolicy.Proofs.Store.Attempt
import TagPolicy.Proofs.Store.Keeping

/-!
The cache slot is never seen. Every piece of work that a process does on a store keeps it coherent,
whatever fails and wherever the process is cut off, and an authority that starts has the table of the
rule text.
-/

namespace TagPolicy

open Access (Keeps Runs keeps_done keeps_look keeps_put keeps_read keeps_write runs_attempt
  runs_cut_off runs_perform)
open Outcome (Ensures)

theorem CacheSlot.keeps_store {cache : CacheSlot} {table : Table} {invariant : Contents → Prop}
    {contents : Contents} (holds : invariant contents)
    (filled : ∀ text, Cache.encode table = .ok text → invariant (contents.put cache.slot text)) :
    (cache.store table).Keeps invariant (fun _ => True) contents := by
  rw [store]
  cases encoded : Cache.encode table with
  | error fault => exact keeps_done holds trivial
  | ok text =>
      apply keeps_put holds (filled text encoded)
      intro outcome contents holds
      cases outcome <;> exact keeps_done holds trivial

namespace EngineSettings

variable {settings : EngineSettings} {before contents : Contents}

theorem keeps_check_schema {invariant : Contents → Prop} (holds : invariant contents) :
    settings.checkSchema.Keeps invariant (fun _ => True) contents := by
  rw [checkSchema]
  apply keeps_look holds
  intro answer
  cases answer <;> exact keeps_done holds trivial

theorem keeps_prepare (valid : settings.fault? = none) (coherent : settings.Coherent contents) :
    settings.prepare.Keeps settings.Coherent (fun _ => True) contents := by
  obtain ⟨-, rules, cache⟩ := distinct_of_valid valid
  have marked : settings.Coherent (contents.put settings.versionSlot settings.schemaVersion) :=
    coherent.congr (Contents.answer_put_other cache) (Contents.answer_put_other rules)
  rw [prepare]
  apply keeps_look coherent
  intro answer
  cases answer with
  | error fault => exact keeps_done coherent trivial
  | ok found =>
      cases found with
      | some version => exact keeps_check_schema coherent
      | none =>
          apply keeps_put coherent marked
          intro outcome contents coherent
          cases outcome <;> exact keeps_done coherent trivial

section Start

/-- A coherent store whose rule text is that of an earlier one. -/
def Steady (settings : EngineSettings) (before after : Contents) : Prop :=
  settings.Coherent after ∧
    after.answer settings.ruleSlot = before.answer settings.ruleSlot

variable (valid : settings.fault? = none)

include valid

theorem Steady.cache (steady : settings.Steady before contents) {text : String}
    (coherent : settings.Coherent (contents.put settings.cacheSlot text)) :
    settings.Steady before (contents.put settings.cacheSlot text) := by
  obtain ⟨distinct, -, -⟩ := distinct_of_valid valid
  exact ⟨coherent, (Contents.answer_put_other distinct).trans steady.2⟩

theorem keeps_load (steady : settings.Steady before contents) :
    settings.cache.load.Keeps (settings.Steady before)
      (fun
        | .hit table => settings.ruleTable before = .ok table
        | .miss _ => True) contents := by
  rw [CacheSlot.load]
  apply keeps_read steady
  · cases answered : contents.answer settings.cache.slot with
    | error fault => exact keeps_done steady trivial
    | ok found =>
        cases found with
        | none => exact keeps_done steady trivial
        | some text =>
            dsimp only
            split
            · exact keeps_done steady trivial
            · rename_i present
              cases accepted : settings.cache.accept text with
              | ok table =>
                  have hit := CacheSlot.perform_load_eq_hit.mpr
                    ⟨text, answered, Bool.eq_false_iff.mpr present, accepted⟩
                  exact keeps_done steady
                    ((rule_table_congr steady.2).symm.trans (steady.1 table hit))
              | error corruption =>
                  have cleared := Steady.cache valid steady
                    (coherent_of_empty (Contents.answer_put_self contents _ ""))
                  apply keeps_put steady cleared
                  intro outcome contents steady
                  exact keeps_done steady trivial
  · intro fault
    exact keeps_done steady trivial

theorem keeps_compile_stored (steady : settings.Steady before contents) :
    settings.compileStored.Keeps (settings.Steady before)
      (Ensures fun table => settings.ruleTable before = .ok table) contents := by
  obtain ⟨distinct, -, -⟩ := distinct_of_valid valid
  rw [compileStored]
  apply keeps_read steady
  · cases answered : contents.answer settings.ruleSlot with
    | error fault => exact keeps_done steady trivial
    | ok text =>
        dsimp only
        cases compiled : Table.compile settings.schemaVersion (text.getD "") with
        | error failure => exact keeps_done steady trivial
        | ok table =>
            have current : settings.ruleTable contents = .ok table := by
              rw [ruleTable, answered]
              exact compiled
            have stored : (settings.cache.store table).Keeps (settings.Steady before)
                (fun _ => True) contents := by
              apply CacheSlot.keeps_store steady
              intro text encoded
              apply Steady.cache valid steady
              apply coherent_of_filled encoded (Contents.answer_put_self contents _ text)
              exact (rule_table_congr (Contents.answer_put_other distinct)).trans current
            apply stored.bind
            intro outcome contents kept _
            exact keeps_done kept ((rule_table_congr steady.2).symm.trans current)
  · intro fault
    exact keeps_done steady trivial

theorem keeps_obtain_table (steady : settings.Steady before contents) :
    settings.obtainTable.Keeps (settings.Steady before)
      (Ensures fun obtained => settings.ruleTable before = .ok obtained.1) contents := by
  rw [obtainTable]
  apply (keeps_load valid steady).bind
  intro lookup contents steady known
  cases lookup with
  | hit table => exact keeps_done steady known
  | miss rejected =>
      apply (keeps_compile_stored valid steady).bind
      intro outcome contents steady known
      cases outcome with
      | error failure => exact keeps_done steady trivial
      | ok table => exact keeps_done steady known

theorem keeps_start (tags : Except StorageFault (List Tag))
    (coherent : settings.Coherent contents) :
    (Authority.start settings tags).Keeps (settings.Steady contents)
      (Ensures fun authority => settings.ruleTable contents = .ok authority.table) contents := by
  have steady : settings.Steady contents contents := ⟨coherent, rfl⟩
  rw [Authority.start]
  apply (keeps_check_schema steady).bind
  intro outcome contents steady _
  cases outcome with
  | error failure => exact keeps_done steady trivial
  | ok checked =>
      apply (keeps_obtain_table valid steady).bind
      intro outcome contents steady known
      cases outcome with
      | error failure => exact keeps_done steady trivial
      | ok obtained =>
          obtain ⟨table, counters⟩ := obtained
          cases tags with
          | error fault => exact keeps_done steady trivial
          | ok tags =>
              dsimp only
              cases TagTree.build tags with
              | error fault => exact keeps_done steady trivial
              | ok tree => exact keeps_done steady known

end Start

section Install

variable (valid : settings.fault? = none)

include valid

/-- The cache slot is empty while the rule text changes. -/
theorem keeps_commit {text : String} {table : Table} (coherent : settings.Coherent contents)
    (compiled : Table.compile settings.schemaVersion text = .ok table) :
    (settings.commit text table).Keeps settings.Coherent (fun _ => True) contents := by
  obtain ⟨distinct, -, -⟩ := distinct_of_valid valid
  have emptied := Contents.answer_put_self contents settings.cacheSlot ""
  have cleared : settings.Coherent (contents.put settings.cacheSlot "") :=
    coherent_of_empty emptied
  have written : settings.Coherent
      ((contents.put settings.cacheSlot "").put settings.ruleSlot text) :=
    coherent_of_empty ((Contents.answer_put_other distinct.symm).trans emptied)
  rw [commit]
  apply keeps_write coherent
  · apply keeps_write cleared
    · have stored : (settings.cache.store table).Keeps settings.Coherent (fun _ => True)
          ((contents.put settings.cacheSlot "").put settings.ruleSlot text) := by
        apply CacheSlot.keeps_store written
        intro filling encoded
        apply coherent_of_filled encoded (Contents.answer_put_self _ _ filling)
        rw [rule_table_congr (Contents.answer_put_other distinct), rule_table_put, compiled]
      apply stored.bind
      intro outcome contents coherent _
      exact keeps_done coherent trivial
    · intro fault
      exact ⟨keeps_done cleared trivial, keeps_done written trivial⟩
  · intro fault
    exact ⟨keeps_done coherent trivial, keeps_done cleared trivial⟩

theorem keeps_install_into (text : String) (coherent : settings.Coherent contents) :
    (settings.installInto text).Keeps settings.Coherent (fun _ => True) contents := by
  rw [installInto]
  apply (keeps_check_schema coherent).bind
  intro outcome contents coherent _
  cases outcome with
  | error failure => exact keeps_done coherent trivial
  | ok checked =>
      dsimp only
      cases compiled : Table.compile settings.schemaVersion text with
      | error failure => exact keeps_done coherent trivial
      | ok table =>
          apply (keeps_commit valid coherent compiled).bind
          intro commit contents coherent _
          exact keeps_done coherent trivial

theorem keeps_install {authority : Authority} (same : authority.settings = settings)
    (text : String) (coherent : settings.Coherent contents) :
    (authority.install text).Keeps settings.Coherent (fun _ => True) contents := by
  subst same
  rw [Authority.install]
  cases compiled : authority.validate text with
  | error failure => exact keeps_done coherent trivial
  | ok table =>
      apply (keeps_commit valid coherent compiled).bind
      intro commit contents coherent _
      exact keeps_done coherent trivial

end Install

/-- The work that processes of the same settings do on a store. -/
inductive EntryPoint (settings : EngineSettings) : {α : Type} → Access α → Prop
  | prepare : EntryPoint settings settings.prepare
  | installInto (text : String) : EntryPoint settings (settings.installInto text)
  | start (tags : Except StorageFault (List Tag)) :
      EntryPoint settings (Authority.start settings tags)
  | install (authority : Authority) (same : authority.settings = settings) (text : String) :
      EntryPoint settings (authority.install text)

/-- The contents that a store may have after a number of pieces of work, one after the other, each of
them finished or cut off. -/
inductive Reachable (settings : EngineSettings) (start : Contents) : Contents → Prop
  | start : Reachable settings start start
  | next {α : Type} {work rest : Access α} {contents after : Contents} :
      Reachable settings start contents → EntryPoint settings work →
        Runs work contents rest after → Reachable settings start after

theorem EntryPoint.coherent_after_runs {α : Type} {work rest : Access α} {after : Contents}
    (entry : EntryPoint settings work) (valid : settings.fault? = none)
    (coherent : settings.Coherent contents) (runs : Runs work contents rest after) :
    settings.Coherent after := by
  cases entry with
  | prepare => exact ((keeps_prepare valid coherent).after_runs runs).holds
  | installInto text => exact ((keeps_install_into valid text coherent).after_runs runs).holds
  | start tags => exact ((keeps_start valid tags coherent).after_runs runs).holds.1
  | install authority same text =>
      exact ((keeps_install valid same text coherent).after_runs runs).holds

theorem coherent_of_reachable {start : Contents} (valid : settings.fault? = none)
    (coherent : settings.Coherent start) (reached : Reachable settings start contents) :
    settings.Coherent contents := by
  induction reached with
  | start => exact coherent
  | next _ entry runs induction => exact entry.coherent_after_runs valid induction runs

/-- Whatever processes have done to a store that was coherent, it is coherent, and an authority that
starts from it has the table of its rule text. -/
theorem cache_transparent {start : Contents} (valid : settings.fault? = none)
    (coherent : settings.Coherent start) (reached : Reachable settings start contents) :
    settings.Coherent contents ∧
      ∀ tags authority after,
        Runs (Authority.start settings tags) contents (.done (.ok authority)) after →
          settings.ruleTable contents = .ok authority.table ∧
            settings.ruleTable after = .ok authority.table := by
  have kept := coherent_of_reachable valid coherent reached
  refine ⟨kept, ?_⟩
  intro tags authority after runs
  obtain ⟨steady, known⟩ := (keeps_start valid tags kept).after_runs runs
  exact ⟨known, (rule_table_congr steady.2).trans known⟩

/-- The store after its preparation, after rules that were cut off before the cache slot was filled,
and after rules that were put there to the end. -/
def filledContents : Contents :=
  let prepared := (EngineSettings.standard.prepare.perform .empty).2
  let halfway := ((EngineSettings.standard.installInto "").cutOff prepared 3).2
  ((EngineSettings.standard.installInto "allow true").perform halfway).2

def secondFails : Faults := fun access =>
  if access = 1 then some (.unwritable "RackCodeCache") else none

/-- The store after a process that would have taken the rules away. -/
def keptContents : Contents :=
  ((EngineSettings.standard.installInto "").attempt secondFails filledContents).contents

theorem reachable_kept_contents : Reachable .standard .empty keptContents := by
  have prepared : Reachable .standard .empty _ := .next .start .prepare (runs_perform _ .empty)
  have halfway : Reachable .standard .empty _ :=
    .next prepared (.installInto "") (runs_cut_off 3 _ _)
  have filled : Reachable .standard .empty filledContents :=
    .next halfway (.installInto "allow true") (runs_perform _ _)
  exact .next filled (.installInto "") (runs_attempt _ secondFails filledContents)

theorem transparent_after_cut_off_and_failure :
    ∃ authority after,
      Runs (Authority.start .standard (.ok [])) keptContents (.done (.ok authority)) after ∧
        authority.metrics.counters.cacheHits = 1 ∧
          EngineSettings.standard.Coherent keptContents ∧
            EngineSettings.standard.ruleTable keptContents = .ok authority.table ∧
              authority.table.size = 1 := by
  have valid : EngineSettings.standard.fault? = none := by decide
  have empty : EngineSettings.standard.Coherent .empty := by
    apply coherent_of_no_text
    intro text found
    cases found
  have transparent := cache_transparent valid empty reachable_kept_contents
  have runs := runs_perform (Authority.start .standard (.ok [])) keptContents
  have found : ((Authority.start .standard (.ok [])).perform keptContents).1.toOption.map
      (fun authority => (authority.metrics.counters.cacheHits, authority.table.size)) =
        some (1, 1) := by
    decide +kernel
  cases result : ((Authority.start .standard (.ok [])).perform keptContents).1 with
  | error failure =>
      rw [result] at found
      cases found
  | ok authority =>
      rw [result] at runs found
      obtain ⟨hits, size⟩ := Prod.mk.inj (Option.some.inj found)
      exact ⟨authority, _, runs, hits, transparent.1, (transparent.2 _ _ _ runs).1, size⟩

end EngineSettings

end TagPolicy
