import TagPolicy.Authority.Metrics
import TagPolicy.Context.Basic
import TagPolicy.Policy.Active
import TagPolicy.Settings.Basic

/-!
Authorities: a table in effect, a tree of tags, and what is recorded of their use. An authority
starts from a store whose schema version is the expected one, with the table of the cache slot or,
if that cannot be used, with the compiled rule text.

New rules go into the store in an order that never leaves a cache slot that disagrees with the rule
slot: the cache slot is emptied, the rule slot is written, and then the cache slot is filled. The
table in effect changes as soon as the rule slot has been written.
-/

namespace TagPolicy

structure Authority where
  settings : EngineSettings
  active : ActiveTable
  tree : TagTree
  metrics : Metrics

namespace EngineSettings

def cache (settings : EngineSettings) : CacheSlot := ⟨settings.cacheSlot, settings.schemaVersion⟩

/-- Whether a version found in a store is the expected one; blanks around it do not matter. -/
def admits (settings : EngineSettings) (found : Option String) : Except Failure Unit :=
  match found with
  | none => .error (.schemaMismatch settings.schemaVersion none)
  | some version =>
      if Text.trim version = settings.schemaVersion then .ok ()
      else .error (.schemaMismatch settings.schemaVersion (some version))

def checkSchema (settings : EngineSettings) : Access (Except Failure Unit) := do
  match ← Access.read settings.versionSlot with
  | .error fault => pure (.error (.storage fault))
  | .ok found => pure (settings.admits found)

/-- Marks a store that has no schema version with the expected one; a store that has one is only
checked, and asked for it once more. -/
def prepare (settings : EngineSettings) : Access (Except Failure Unit) := do
  match ← Access.read settings.versionSlot with
  | .error fault => pure (.error (.storage fault))
  | .ok (some _) => settings.checkSchema
  | .ok none =>
      match ← Access.write settings.versionSlot settings.schemaVersion with
      | .error fault => pure (.error (.storage fault))
      | .ok () => pure (.ok ())

/-- The table of the rule text in the store, which is then kept in the cache slot; a failure to keep
it does not matter. A store without rule text has the empty one. -/
def compileStored (settings : EngineSettings) : Access (Except Failure Table) := do
  match ← Access.read settings.ruleSlot with
  | .error fault => pure (.error (.storage fault))
  | .ok text =>
      match Table.compile settings.schemaVersion (text.getD "") with
      | .error failure => pure (.error failure)
      | .ok table => do
          let _ ← settings.cache.store table
          pure (.ok table)

def obtainTable (settings : EngineSettings) : Access (Except Failure (Table × Counters)) := do
  let lookup ← settings.cache.load
  let counters := Counters.zero.countLookup lookup
  match lookup with
  | .hit table => pure (.ok (table, counters))
  | .miss _ =>
      match ← settings.compileStored with
      | .error failure => pure (.error failure)
      | .ok table => pure (.ok (table, counters.countCompilation))

/-- How far an attempt to put rules into a store has come. -/
structure Commit where
  written : Bool
  outcome : Except Failure Unit

/-- Puts a rule text and its table into the store. The first failure ends the attempt. -/
def commit (settings : EngineSettings) (text : String) (table : Table) : Access Commit := do
  match ← settings.cache.clear with
  | .error fault => pure ⟨false, .error (.storage fault)⟩
  | .ok () =>
      match ← Access.write settings.ruleSlot text with
      | .error fault => pure ⟨false, .error (.storage fault)⟩
      | .ok () => do
          let outcome ← settings.cache.store table
          pure ⟨true, outcome⟩

def installInto (settings : EngineSettings) (text : String) : Access (Except Failure Table) := do
  match ← settings.checkSchema with
  | .error failure => pure (.error failure)
  | .ok () =>
      match Table.compile settings.schemaVersion text with
      | .error failure => pure (.error failure)
      | .ok table => do
          let commit ← settings.commit text table
          pure (commit.outcome.map fun _ => table)

end EngineSettings

namespace Authority

def start (settings : EngineSettings) (tags : Except StorageFault (List Tag)) :
    Access (Except Failure Authority) := do
  match ← settings.checkSchema with
  | .error failure => pure (.error failure)
  | .ok () =>
      match ← settings.obtainTable with
      | .error failure => pure (.error failure)
      | .ok (table, counters) =>
          match tags with
          | .error fault => pure (.error (.storage fault))
          | .ok tags =>
              match TagTree.build tags with
              | .error fault => pure (.error (.tree fault))
              | .ok tree => pure (.ok ⟨settings, ⟨table⟩, tree, ⟨counters, .empty⟩⟩)

def table (authority : Authority) : Table := authority.active.current

/-- The table of a rule text, which is not put into effect. -/
def validate (authority : Authority) (text : String) : Except Failure Table :=
  Table.compile authority.settings.schemaVersion text

def countCompilation (authority : Authority) : Authority :=
  { authority with
    metrics := { authority.metrics with counters := authority.metrics.counters.countCompilation } }

def activate (authority : Authority) (table : Table) : Authority :=
  { authority with active := (authority.active.replace table).2 }

def install (authority : Authority) (text : String) : Access (Except Failure Unit × Authority) :=
  match authority.validate text with
  | .error failure => pure (.error failure, authority)
  | .ok table => do
      let commit ← authority.settings.commit text table
      let counted := authority.countCompilation
      pure (commit.outcome, if commit.written then counted.activate table else counted)

/-- The decision on a request and the authority that has counted it. The time it took is recorded by
whoever holds a clock, with `Latencies.record`. -/
def authorize (authority : Authority) (subject target : Context) (action : Action) :
    Decision × Authority :=
  let decision := authority.table.decide (Facts.ofRequest subject target action)
  let counters := authority.metrics.counters.countDecision decision
  (decision, { authority with metrics := { authority.metrics with counters } })

/-- Whether a subject may act where no entity is concerned. -/
def permitted (authority : Authority) (subject : Context) (action : Action) : Bool × Authority :=
  let (decision, authority) := authority.authorize subject .empty action
  (decision.isAllowed, authority)

end Authority

end TagPolicy
