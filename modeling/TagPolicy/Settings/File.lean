import TagPolicy.Settings.Basic
import TagPolicy.Toml.Fields
import TagPolicy.Toml.Reader

/-!
Settings in a file. Whatever the file leaves out is as in the standard settings.
-/

namespace TagPolicy

def EngineSettings.ofToml (value : Toml) : Option EngineSettings := do
  let standard := EngineSettings.standard
  let schemaVersion ←
    value.optional Toml.asText standard.schemaVersion "expected_schema_version" 0
  let ruleSlot ← value.optional Toml.asText standard.ruleSlot "rule_slot" 1
  let cacheSlot ← value.optional Toml.asText standard.cacheSlot "cache_slot" 2
  let versionSlot ← value.optional Toml.asText standard.versionSlot "version_slot" 3
  some ⟨schemaVersion, ruleSlot, cacheSlot, versionSlot⟩

namespace Settings

def pathOf (default : String) (value : Toml) : Option String :=
  value.optional Toml.asText default "path" 0

def ofToml (document : Toml) : Option Settings := do
  let engine ← document.optional EngineSettings.ofToml standard.engine "engine" 0
  let storePath ← document.optional (pathOf standard.storePath) standard.storePath "storage" 1
  let directoryPath ←
    document.optional (pathOf standard.directoryPath) standard.directoryPath "directory" 2
  some ⟨engine, storePath, directoryPath⟩

def parse (text : String) : Option Settings :=
  (Toml.parse text).bind fun entries => ofToml (.table entries)

end Settings

end TagPolicy
