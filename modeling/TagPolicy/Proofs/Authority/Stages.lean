import TagPolicy.Authority.Basic
import TagPolicy.Proofs.Authority.Coherence
import TagPolicy.Proofs.Store.Interleaving

/-!
How far a process has come that starts an authority or puts rules into a store: whether it has taken
the rule text it works on, and whether it has filled the cache slot. `Follows` says that work goes
through these stages, whatever the store answers, so nothing else has to be known of a process that
runs beside another.
-/

namespace TagPolicy

inductive Stage
  | waiting
  /-- It has emptied the cache slot. -/
  | cleared
  /-- It has read or written the rule text, and works on that text. -/
  | holding (text : String)
  /-- It has filled the cache slot with the table of its text. -/
  | filled (text : String)

namespace Stage

def text? : Stage → Option String
  | waiting => none
  | cleared => none
  | holding text => some text
  | filled text => some text

/-- What each access makes of a stage. -/
inductive Move (settings : EngineSettings) : Stage → Event → Stage → Prop
  | look {stage : Stage} {slot : String} {answer : Except StorageFault (Option String)} :
      slot ≠ settings.ruleSlot → Move settings stage (.read slot answer) stage
  | refused {stage : Stage} {fault : StorageFault} :
      Move settings stage (.read settings.ruleSlot (.error fault)) stage
  | take {stage : Stage} {text : Option String} : stage.text? = none →
      Move settings stage (.read settings.ruleSlot (.ok text)) (.holding (text.getD ""))
  | clear : Move settings .waiting (.wrote settings.cacheSlot "") .cleared
  | write {text : String} :
      Move settings .cleared (.wrote settings.ruleSlot text) (.holding text)
  | fill {text filling : String} {table : Table} :
      Table.compile settings.schemaVersion text = .ok table → Cache.encode table = .ok filling →
        Move settings (.holding text) (.wrote settings.cacheSlot filling) (.filled text)

end Stage

open Stage (Move)

namespace Access

variable {α β : Type} {settings : EngineSettings} {expected : α → Stage → Prop}
  {goal : β → Stage → Prop} {stage : Stage}

/-- Every access of the work is one that its stage allows, and it ends as expected. -/
def Follows (settings : EngineSettings) (expected : α → Stage → Prop) : Access α → Stage → Prop
  | .done result, stage => expected result stage
  | .get slot next, stage => ∀ answer, ∃ later, Move settings stage (.read slot answer) later ∧
      (next answer).Follows settings expected later
  | .set slot text next, stage => ∃ later, Move settings stage (.wrote slot text) later ∧
      (next (.ok ())).Follows settings expected later

theorem Follows.bind {work : Access α} {next : α → Access β}
    (follows : work.Follows settings expected stage)
    (rest : ∀ result later, expected result later → (next result).Follows settings goal later) :
    (work >>= next).Follows settings goal stage := by
  induction work generalizing stage with
  | done result => exact rest result stage follows
  | get slot further induction =>
      intro answer
      obtain ⟨later, move, follows⟩ := follows answer
      exact ⟨later, move, induction answer follows⟩
  | set slot text further induction =>
      obtain ⟨later, move, follows⟩ := follows
      exact ⟨later, move, induction (.ok ()) follows⟩

theorem follows_read {slot : String} {next : Except StorageFault (Option String) → Access β}
    (rest : ∀ answer, ∃ later, Move settings stage (.read slot answer) later ∧
      (next answer).Follows settings goal later) :
    (read slot >>= next).Follows settings goal stage := rest

theorem follows_look {slot : String} {next : Except StorageFault (Option String) → Access β}
    (other : slot ≠ settings.ruleSlot)
    (rest : ∀ answer, (next answer).Follows settings goal stage) :
    (read slot >>= next).Follows settings goal stage :=
  fun answer => ⟨stage, .look other, rest answer⟩

theorem follows_write {slot text : String} {next : Except StorageFault Unit → Access β}
    {later : Stage} (move : Move settings stage (.wrote slot text) later)
    (rest : (next (.ok ())).Follows settings goal later) :
    (write slot text >>= next).Follows settings goal stage := ⟨later, move, rest⟩

theorem Follows.step {work rest : Access Unit} {expected : Unit → Stage → Prop}
    {contents : Contents} {event : Event} (follows : work.Follows settings expected stage)
    (step : Step contents work event rest) :
    ∃ later, Move settings stage event later ∧ rest.Follows settings expected later := by
  cases step with
  | get => exact follows _
  | set => exact follows

end Access

open Access (Follows follows_read follows_look follows_write)

namespace EngineSettings

variable {settings : EngineSettings} {stage : Stage}

theorem follows_store {text : String} {table : Table}
    (compiled : Table.compile settings.schemaVersion text = .ok table) :
    (settings.cache.store table).Follows settings (fun _ _ => True) (.holding text) := by
  rw [CacheSlot.store]
  cases encoded : Cache.encode table with
  | error fault => trivial
  | ok filling => exact follows_write (.fill compiled encoded) trivial

section Valid

variable (valid : settings.fault? = none)

include valid

theorem follows_check_schema :
    settings.checkSchema.Follows settings (fun _ later => later = stage) stage := by
  obtain ⟨-, other, -⟩ := distinct_of_valid valid
  rw [checkSchema]
  apply follows_look other.symm
  intro answer
  cases answer <;> rfl

theorem follows_load :
    settings.cache.load.Follows settings (fun _ later => later.text? = none) .waiting := by
  obtain ⟨other, -, -⟩ := distinct_of_valid valid
  rw [CacheSlot.load]
  have distinct : settings.cache.slot ≠ settings.ruleSlot := other.symm
  apply follows_look distinct
  intro answer
  cases answer with
  | error fault => rfl
  | ok found =>
      cases found with
      | none => rfl
      | some text =>
          dsimp only
          split
          · rfl
          · split
            · rfl
            · exact follows_write .clear rfl

omit valid in
theorem follows_compile_stored (early : stage.text? = none) :
    settings.compileStored.Follows settings (fun _ _ => True) stage := by
  rw [compileStored]
  apply follows_read
  intro answer
  cases answer with
  | error fault => exact ⟨stage, .refused, trivial⟩
  | ok text =>
      refine ⟨.holding (text.getD ""), .take early, ?_⟩
      dsimp only
      cases compiled : Table.compile settings.schemaVersion (text.getD "") with
      | error failure => trivial
      | ok table =>
          apply (follows_store compiled).bind
          intro outcome later _
          trivial

theorem follows_obtain_table :
    settings.obtainTable.Follows settings (fun _ _ => True) .waiting := by
  rw [obtainTable]
  apply (follows_load valid).bind
  intro lookup later early
  cases lookup with
  | hit table => trivial
  | miss rejected =>
      apply (follows_compile_stored early).bind
      intro outcome last _
      cases outcome <;> trivial

theorem follows_start (tags : Except StorageFault (List Tag)) :
    (Authority.start settings tags).Follows settings (fun _ _ => True) .waiting := by
  rw [Authority.start]
  apply (follows_check_schema valid).bind
  rintro outcome later rfl
  cases outcome with
  | error failure => trivial
  | ok checked =>
      apply (follows_obtain_table valid).bind
      intro outcome later _
      cases outcome with
      | error failure => trivial
      | ok obtained =>
          cases tags with
          | error fault => trivial
          | ok tags =>
              dsimp only
              cases TagTree.build tags <;> trivial

omit valid in
theorem follows_commit {text : String} {table : Table}
    (compiled : Table.compile settings.schemaVersion text = .ok table) :
    (settings.commit text table).Follows settings (fun _ _ => True) .waiting := by
  rw [commit]
  apply follows_write .clear
  apply follows_write .write
  apply (follows_store compiled).bind
  intro outcome later _
  trivial

theorem follows_install_into (text : String) :
    (settings.installInto text).Follows settings (fun _ _ => True) .waiting := by
  rw [installInto]
  apply (follows_check_schema valid).bind
  rintro outcome later rfl
  cases outcome with
  | error failure => trivial
  | ok checked =>
      dsimp only
      cases compiled : Table.compile settings.schemaVersion text with
      | error failure => trivial
      | ok table =>
          apply (follows_commit compiled).bind
          intro outcome later _
          trivial

end Valid

end EngineSettings

inductive Call
  | start (tags : Except StorageFault (List Tag))
  | install (text : String)

/-- The work of a process; what it returns does not matter to the store. -/
def Call.work (settings : EngineSettings) : Call → Access Unit
  | start tags => do
      let _ ← Authority.start settings tags
      pure ()
  | install text => do
      let _ ← settings.installInto text
      pure ()

theorem Call.follows_work {settings : EngineSettings} (valid : settings.fault? = none)
    (call : Call) : (call.work settings).Follows settings (fun _ _ => True) .waiting := by
  cases call with
  | start tags =>
      apply (EngineSettings.follows_start valid tags).bind
      intro outcome later _
      trivial
  | install text =>
      apply (EngineSettings.follows_install_into valid text).bind
      intro outcome later _
      trivial

end TagPolicy
