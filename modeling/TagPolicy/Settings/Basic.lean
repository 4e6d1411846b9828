import TagPolicy.Text.Blank

/-!
Settings: the slots of the store, the schema version it has to have, and where things are.
-/

namespace TagPolicy

def currentSchemaVersion : String := "0.20.11"

structure EngineSettings where
  schemaVersion : String
  ruleSlot : String
  cacheSlot : String
  versionSlot : String
deriving DecidableEq, Repr

structure Settings where
  engine : EngineSettings
  storePath : String
  directoryPath : String
deriving DecidableEq, Repr

def EngineSettings.standard : EngineSettings :=
  ⟨currentSchemaVersion, "RackCode", "RackCodeCache", "DB_VERSION"⟩

def Settings.standard : Settings := ⟨.standard, "./data/racktag", "./directory.toml"⟩

instance : Inhabited Settings := ⟨.standard⟩

inductive SettingsFault
  | noVersion
  | unnamedSlot
  | sharedSlot
deriving DecidableEq, Repr

def SettingsFault.message : SettingsFault → String
  | .noVersion => "Expected schema version must not be empty"
  | .unnamedSlot => "Slot names must not be empty"
  | .sharedSlot => "Rule, cache and version slots must be distinct"

def EngineSettings.fault? (settings : EngineSettings) : Option SettingsFault :=
  if Text.isBlankText settings.schemaVersion then some .noVersion
  else if [settings.ruleSlot, settings.cacheSlot, settings.versionSlot].any Text.isBlankText then
    some .unnamedSlot
  else if settings.ruleSlot = settings.cacheSlot ∨ settings.ruleSlot = settings.versionSlot ∨
      settings.cacheSlot = settings.versionSlot then some .sharedSlot
  else none

end TagPolicy
