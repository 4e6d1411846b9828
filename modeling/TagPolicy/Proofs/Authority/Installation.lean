import TagPolicy.Authority.Pool
import TagPolicy.Proofs.Authority.Coherence
import TagPolicy.Proofs.Cache.Exactness
import TagPolicy.Proofs.Store.Attempt

/-!
Installing rules in a store that fails. Nothing is written unless the rules compile, and what is
written then are the first of three texts: none at all, so that the rule slot has its old text, or as
many as there were accesses before the first failure. The table in effect is the new one exactly if
the rule slot has its new text.
-/

namespace TagPolicy

open Access (answered attempt_map attempt_pure attempt_read attempt_write attempt_write_fails
  contents_attempt putAll)
open Outcome (bind_eq_ok)

inductive Progress
  | untouched
  /-- The cache slot is empty. -/
  | cleared
  /-- The rule slot has the new text, too. -/
  | replaced
  /-- The cache slot has the new table, too. -/
  | complete
deriving DecidableEq, Repr

def Progress.replaces : Progress → Bool
  | untouched | cleared => false
  | replaced | complete => true

namespace EngineSettings

variable {settings : EngineSettings} {text filling : String} {table : Table} {faults : Faults}
  {before : Contents}

def writes (settings : EngineSettings) (text filling : String) : Progress → List (String × String)
  | .untouched => []
  | .cleared => [(settings.cacheSlot, "")]
  | .replaced => [(settings.cacheSlot, ""), (settings.ruleSlot, text)]
  | .complete =>
      [(settings.cacheSlot, ""), (settings.ruleSlot, text), (settings.cacheSlot, filling)]

/-- What an installation that has come so far leaves in the slots of a store. -/
structure Leaves (settings : EngineSettings) (text filling : String) (before after : Contents)
    (progress : Progress) : Prop where
  rules : after.get? settings.ruleSlot =
    if progress.replaces then some (.text text) else before.get? settings.ruleSlot
  cache : after.get? settings.cacheSlot =
    match progress with
    | .untouched => before.get? settings.cacheSlot
    | .cleared | .replaced => some (.text "")
    | .complete => some (.text filling)
  others : ∀ slot, slot ≠ settings.ruleSlot → slot ≠ settings.cacheSlot →
    after.get? slot = before.get? slot

theorem leaves_writes (valid : settings.fault? = none) (progress : Progress) :
    settings.Leaves text filling before (putAll before (settings.writes text filling progress))
      progress := by
  obtain ⟨distinct, -, -⟩ := distinct_of_valid valid
  cases progress <;> constructor <;>
    simp +contextual [writes, putAll, Contents.put, OrderedMap.get?_insert, Progress.replaces,
      distinct, distinct.symm]

theorem attempt_store {cache : CacheSlot} (encoded : Cache.encode table = .ok filling)
    (faults : Faults) (before : Contents) :
    (cache.store table).attempt faults before =
      match faults 0 with
      | none => ⟨.ok (), [(cache.slot, filling)], before.put cache.slot filling⟩
      | some fault => ⟨.error (.storage fault), [], before⟩ := by
  rw [CacheSlot.store, encoded]
  cases first : faults 0 with
  | none => exact attempt_write _ _ _ first
  | some fault => exact attempt_write_fails _ _ _ first

/-- What comes of putting a text and its table into a store. -/
structure Commits (settings : EngineSettings) (text filling : String) (faults : Faults)
    (attempt : Attempt Commit) (progress : Progress) : Prop where
  written : attempt.written = settings.writes text filling progress
  replaces : attempt.result.written = progress.replaces
  succeeds : attempt.result.outcome.isOk = true ↔ progress = .complete
  fails : ∀ failure, attempt.result.outcome = .error failure → ∃ fault, failure = .storage fault
  faultless : (∀ access, faults access = none) → progress = .complete

theorem commits_of_encode (settings : EngineSettings) (text : String)
    (encoded : Cache.encode table = .ok filling) (faults : Faults) (before : Contents) :
    ∃ progress,
      settings.Commits text filling faults ((settings.commit text table).attempt faults before)
        progress := by
  rw [commit, CacheSlot.clear]
  cases first : faults 0 with
  | some fault =>
      rw [attempt_write_fails _ _ _ first]
      exact ⟨.untouched, rfl, rfl, by simp [attempt_pure, Except.isOk, Except.toBool],
        by simp [attempt_pure], fun none => by simp [none] at first⟩
  | none =>
      rw [attempt_write _ _ _ first]
      dsimp only
      cases second : faults.tail 0 with
      | some fault =>
          rw [attempt_write_fails _ _ _ second]
          exact ⟨.cleared, rfl, rfl, by simp [attempt_pure, Except.isOk, Except.toBool],
            by simp [attempt_pure], fun none => by simp [Faults.tail, none] at second⟩
      | none =>
          rw [attempt_write _ _ _ second]
          dsimp only
          rw [attempt_map _ (Commit.mk true), attempt_store encoded]
          cases third : faults.tail.tail 0 with
          | some fault =>
              exact ⟨.replaced, rfl, rfl, by simp [Except.isOk, Except.toBool], by simp,
                fun none => by simp [Faults.tail, none] at third⟩
          | none =>
              exact ⟨.complete, rfl, rfl, by simp [Except.isOk, Except.toBool], by simp,
                fun _ => rfl⟩

/-- Whether the answer of the version slot lets an installation begin. -/
def admission (settings : EngineSettings) (version : Except StorageFault (Option String)) :
    Except Failure Unit :=
  match version with
  | .error fault => .error (.storage fault)
  | .ok found => settings.admits found

theorem attempt_check_schema {α : Type} (next : Except Failure Unit → Access α) :
    (settings.checkSchema >>= next).attempt faults before =
      (next (settings.admission (answered (faults 0) before settings.versionSlot))).attempt
        faults.tail before := by
  rw [checkSchema, attempt_read]
  cases answered (faults 0) before settings.versionSlot with
  | error fault => rfl
  | ok found => rfl

/-- The table that a text would have in a store whose version slot has answered. -/
def admitted (settings : EngineSettings) (text : String)
    (version : Except StorageFault (Option String)) : Except Failure Table := do
  settings.admission version
  Table.compile settings.schemaVersion text

theorem attempt_install_into (text : String) (faults : Faults) (before : Contents) :
    (settings.installInto text).attempt faults before =
      match settings.admitted text (answered (faults 0) before settings.versionSlot) with
      | .error failure => ⟨.error failure, [], before⟩
      | .ok table =>
          let commit := (settings.commit text table).attempt faults.tail before
          ⟨commit.result.outcome.map fun _ => table, commit.written, commit.contents⟩ := by
  rw [installInto, attempt_check_schema, admitted]
  cases settings.admission (answered (faults 0) before settings.versionSlot) with
  | error failure => rfl
  | ok admits =>
      dsimp only
      rw [Outcome.ok_bind]
      cases Table.compile settings.schemaVersion text with
      | error failure => rfl
      | ok table => exact attempt_map _ _

theorem attempt_install (authority : Authority) (text : String) (faults : Faults)
    (before : Contents) :
    (authority.install text).attempt faults before =
      match authority.validate text with
      | .error failure => ⟨(.error failure, authority), [], before⟩
      | .ok table =>
          let commit := (authority.settings.commit text table).attempt faults before
          ⟨(commit.result.outcome, if commit.result.written then
              authority.countCompilation.activate table else authority.countCompilation),
            commit.written, commit.contents⟩ := by
  rw [Authority.install]
  cases authority.validate text with
  | error failure => rfl
  | ok table => exact attempt_map _ _

/-- An installation that ends before anything is written. -/
structure Refuses {α : Type} (before : Contents) (failure : Failure) (outcome : Except Failure α)
    (written : List (String × String)) (after : Contents) : Prop where
  outcome_eq : outcome = .error failure
  nothing : written = []
  unchanged : after = before

/-- An installation of a table, which may end after any of its writes. -/
structure Installs {α : Type} (settings : EngineSettings) (text : String) (faults : Faults)
    (before : Contents) (table : Table) (outcome : Except Failure α) (after : Contents)
    (progress : Progress) : Prop where
  compiled : Table.compile settings.schemaVersion text = .ok table
  leaves : ∃ filling, Cache.encode table = .ok filling ∧
    settings.Leaves text filling before after progress
  succeeds : outcome.isOk = true ↔ progress = .complete
  fails : ∀ failure, outcome = .error failure → ∃ fault, failure = .storage fault
  faultless : (∀ access, faults access = none) → progress = .complete

section Installs

variable {progress : Progress}

theorem Commits.installs (valid : settings.fault? = none)
    (compiled : Table.compile settings.schemaVersion text = .ok table)
    (encoded : Cache.encode table = .ok filling)
    (commits : settings.Commits text filling faults
      ((settings.commit text table).attempt faults before) progress) :
    settings.Installs text faults before table
      ((settings.commit text table).attempt faults before).result.outcome
      ((settings.commit text table).attempt faults before).contents progress := by
  refine ⟨compiled, ⟨filling, encoded, ?_⟩, commits.succeeds, commits.fails, commits.faultless⟩
  rw [contents_attempt, commits.written]
  exact leaves_writes valid progress

/-- What is made of a success is no concern of the store. -/
theorem Installs.map {α β : Type} {outcome : Except Failure α} {after : Contents} (make : α → β)
    (installs : settings.Installs text faults before table outcome after progress) :
    settings.Installs text faults before table (outcome.map make) after progress := by
  obtain ⟨compiled, leaves, succeeds, fails, faultless⟩ := installs
  cases outcome with
  | error failure =>
      refine ⟨compiled, leaves, succeeds, ?_, faultless⟩
      intro other same
      cases same
      exact fails failure rfl
  | ok value =>
      refine ⟨compiled, leaves, succeeds, ?_, faultless⟩
      intro other impossible
      cases impossible

/-- An access may come before the installation. -/
theorem Installs.later {α : Type} {outcome : Except Failure α} {after : Contents}
    (installs : settings.Installs text faults.tail before table outcome after progress) :
    settings.Installs text faults before table outcome after progress := by
  obtain ⟨compiled, leaves, succeeds, fails, faultless⟩ := installs
  refine ⟨compiled, leaves, succeeds, fails, ?_⟩
  intro none
  exact faultless fun access => none (access + 1)

theorem installs_install (valid : settings.fault? = none)
    (compiled : Table.compile settings.schemaVersion text = .ok table)
    (encoded : Cache.encode table = .ok filling) {authority : Authority}
    (own : authority.settings = settings) :
    ∃ progress,
      settings.Installs text faults before table
        ((authority.install text).attempt faults before).result.1
        ((authority.install text).attempt faults before).contents progress ∧
      ((authority.install text).attempt faults before).result.2.table =
        if progress.replaces then table else authority.table := by
  subst own
  have validated : authority.validate text = .ok table := compiled
  obtain ⟨progress, commits⟩ := commits_of_encode authority.settings text encoded faults before
  rw [attempt_install, validated]
  refine ⟨progress, commits.installs valid compiled encoded, ?_⟩
  dsimp only
  rw [commits.replaces]
  cases progress.replaces <;> rfl

theorem installs_install_into (valid : settings.fault? = none)
    (admits : settings.admitted text (answered (faults 0) before settings.versionSlot) = .ok table)
    (encoded : Cache.encode table = .ok filling) :
    ∃ progress,
      settings.Installs text faults before table
        ((settings.installInto text).attempt faults before).result
        ((settings.installInto text).attempt faults before).contents progress ∧
      ∀ found, ((settings.installInto text).attempt faults before).result = .ok found →
        found = table := by
  obtain ⟨-, -, compiled⟩ := bind_eq_ok.mp admits
  obtain ⟨progress, commits⟩ := commits_of_encode settings text encoded faults.tail before
  have installs := (commits.installs valid compiled encoded).map fun _ => table
  rw [attempt_install_into, admits]
  refine ⟨progress, installs.later, ?_⟩
  intro found same
  dsimp only at same
  cases outcome : ((settings.commit text table).attempt faults.tail before).result.outcome with
  | error failure =>
      rw [outcome] at same
      cases same
  | ok finished =>
      rw [outcome] at same
      cases same
      rfl

end Installs

end EngineSettings

namespace Pool

variable {pool : Pool} {engine : Engine} {authority later : Authority}

def tableOf? (pool : Pool) (engine : Engine) : Option Table :=
  (pool.authorityOf? engine).map Authority.table

theorem table_of_update (present : pool.authorityOf? engine = some authority) (other : Engine) :
    (pool.update engine later).tableOf? other =
      if other.authority = engine.authority then some later.table else pool.tableOf? other := by
  have inside := (Array.getElem?_eq_some_iff.mp present).1
  rw [tableOf?, authorityOf?, update, Array.getElem?_setIfInBounds]
  by_cases same : other.authority = engine.authority
  · rw [if_pos same.symm, if_pos same, if_pos (same ▸ inside)]
    rfl
  · rw [if_neg (Ne.symm same), if_neg same]
    rfl

/-- A table that is put into effect, or not, is seen by the engines of its authority. -/
theorem table_of_update_of_table {table : Table} {replaces : Bool}
    (present : pool.authorityOf? engine = some authority)
    (active : later.table = if replaces then table else authority.table) (other : Engine) :
    (pool.update engine later).tableOf? other =
      if other.authority = engine.authority ∧ replaces = true then some table
      else pool.tableOf? other := by
  rw [table_of_update present, active]
  by_cases same : other.authority = engine.authority
  · have current : pool.tableOf? other = some authority.table := by
      rw [tableOf?, authorityOf?, same]
      exact congrArg (Option.map Authority.table) present
    cases replaces <;> simp [same, current]
  · simp [same]

end Pool

section Conclusion

variable {settings : EngineSettings} {text : String}

/-- Whatever fails, an installation writes nothing if the text is refused. Otherwise the rule slot
and the cache slot hold what its progress says, no other slot has changed, it succeeds exactly if it
is complete, which it is if nothing fails, and every engine of the authority, and no other engine,
decides with the new table exactly if the rule slot has the new text. -/
theorem install_all_or_nothing (valid : settings.fault? = none)
    (fits : ∀ table, Table.compile settings.schemaVersion text = .ok table →
      ∃ filling, Cache.encode table = .ok filling)
    (faults : Faults) (before : Contents) :
    (∀ (pool : Pool) (engine : Engine) (authority : Authority),
      pool.authorityOf? engine = some authority → authority.settings = settings →
        let attempt := (authority.install text).attempt faults before
        let after := pool.update engine attempt.result.2
        (∀ failure, Table.compile settings.schemaVersion text = .error failure →
          EngineSettings.Refuses before failure attempt.result.1 attempt.written attempt.contents ∧
            ∀ other, after.tableOf? other = pool.tableOf? other) ∧
        ∀ table, Table.compile settings.schemaVersion text = .ok table →
          ∃ progress,
            settings.Installs text faults before table attempt.result.1 attempt.contents progress ∧
              ∀ other : Engine, after.tableOf? other =
                if other.authority = engine.authority ∧ progress.replaces = true then some table
                else pool.tableOf? other) ∧
      let attempt := (settings.installInto text).attempt faults before
      let admitted := settings.admitted text (answered (faults 0) before settings.versionSlot)
      (∀ failure, admitted = .error failure →
        EngineSettings.Refuses before failure attempt.result attempt.written attempt.contents) ∧
      ∀ table, admitted = .ok table →
        ∃ progress,
          settings.Installs text faults before table attempt.result attempt.contents progress ∧
            ∀ found, attempt.result = .ok found → found = table := by
  refine ⟨?_, ?_, ?_⟩
  · intro pool engine authority present own
    constructor
    · intro failure refused
      have invalid : authority.validate text = .error failure := by
        rw [Authority.validate, own, refused]
      rw [EngineSettings.attempt_install, invalid]
      refine ⟨⟨rfl, rfl, rfl⟩, ?_⟩
      intro other
      have same : authority.table = if false then authority.table else authority.table := rfl
      simpa using Pool.table_of_update_of_table present same other
    · intro table compiled
      obtain ⟨filling, encoded⟩ := fits table compiled
      obtain ⟨progress, installs, active⟩ :=
        EngineSettings.installs_install valid compiled encoded own
      exact ⟨progress, installs, Pool.table_of_update_of_table present active⟩
  · intro failure refused
    rw [EngineSettings.attempt_install_into, refused]
    exact ⟨rfl, rfl, rfl⟩
  · intro table admits
    obtain ⟨-, -, compiled⟩ := bind_eq_ok.mp admits
    obtain ⟨filling, encoded⟩ := fits table compiled
    exact EngineSettings.installs_install_into valid admits encoded

def idleAuthority : Authority := ⟨.standard, .empty, .empty, .zero⟩

def closedStore : Contents :=
  Contents.put (Contents.put .empty "DB_VERSION" "0.20.11") "RackCode" "deny true"

def thirdFails : Faults := fun access =>
  if access = 2 then some (.unwritable "RackCodeCache") else none

theorem allow_installed_while_third_fails :
    ∃ table, Table.compile currentSchemaVersion "allow true" = .ok table ∧
      (∃ progress,
        EngineSettings.standard.Installs "allow true" thirdFails closedStore table
          ((idleAuthority.install "allow true").attempt thirdFails closedStore).result.1
          ((idleAuthority.install "allow true").attempt thirdFails closedStore).contents
          progress) ∧
        ∃ progress,
          EngineSettings.standard.Installs "allow true" thirdFails closedStore table
            ((EngineSettings.standard.installInto "allow true").attempt thirdFails
              closedStore).result
            ((EngineSettings.standard.installInto "allow true").attempt thirdFails
              closedStore).contents progress := by
  have short : ((Table.compile EngineSettings.standard.schemaVersion "allow true").toOption.any
      fun table => decide ((Layout.writeTable table).length + 47 ≤ Cache.maxOctets)) = true := by
    decide +kernel
  cases compiled : Table.compile EngineSettings.standard.schemaVersion "allow true" with
  | error failure =>
      rw [compiled] at short
      cases short
  | ok table =>
      rw [compiled] at short
      have fits : ∀ other,
          Table.compile EngineSettings.standard.schemaVersion "allow true" = .ok other →
            ∃ filling, Cache.encode other = .ok filling := by
        intro other same
        rw [compiled] at same
        cases same
        exact Cache.encode_of_short table (of_decide_eq_true short)
      have present : (Pool.add .empty idleAuthority).2.authorityOf? ⟨0⟩ = some idleAuthority := rfl
      have version : EngineSettings.standard.admits (some "0.20.11") = .ok () := by
        rw [EngineSettings.admits]
        exact if_pos (by decide)
      have admits : EngineSettings.standard.admitted "allow true"
          (answered (thirdFails 0) closedStore EngineSettings.standard.versionSlot) =
            .ok table := bind_eq_ok.mpr ⟨(), version, compiled⟩
      obtain ⟨ofAuthority, ofStore⟩ :=
        install_all_or_nothing (by decide) fits thirdFails closedStore
      obtain ⟨progress, installs, -⟩ :=
        (ofAuthority (Pool.add .empty idleAuthority).2 ⟨0⟩ idleAuthority present rfl).2 table compiled
      obtain ⟨further, installsInto, -⟩ := ofStore.2 table admits
      exact ⟨table, compiled, ⟨progress, installs⟩, further, installsInto⟩

end Conclusion

end TagPolicy
