import TagPolicy.Authority.Basic
import TagPolicy.CommandLine.Help
import TagPolicy.CommandLine.StoreFolder
import TagPolicy.Settings.File
import TagPolicy.Store.Directory

/-!
The commands. Each is an errand with an outcome, and the first thing that goes wrong is its outcome.
Settings are read and checked before the command does anything.
-/

namespace TagPolicy.CommandLine

abbrev Work := ExceptT Outcome Errand

namespace Work

def complain {α : Type} (complaint : Complaint) : Work α := throw (.failed complaint)

def result {α : Type} : Except Failure α → Work α
  | .ok value => pure value
  | .error failure => complain (.ofFailure failure)

def readFile (path message : String) : Work String := do
  match ← ExceptT.lift (Errand.readText path) with
  | .ok text => pure text
  | .error fault => complain ⟨message, [fault.message]⟩

def openStore (settings : Settings) : Work Unit := do
  match ← ExceptT.lift (Errand.openStore settings.storePath) with
  | .ok () => pure ()
  | .error fault =>
      complain ((Complaint.ofFailure (.storage (.system fault.message))).within
        ("Opening policy store at " ++ settings.storePath))

def onStore {α : Type} (settings : Settings) (access : Access α) : Work α :=
  ExceptT.lift (Errand.onStore settings.storePath access)

end Work

def loadSettings (path : String) : Work Settings := do
  let place := "Loading configuration from " ++ path
  match ← ExceptT.lift (Errand.readText path) with
  | .error fault =>
      Work.complain (Complaint.within ⟨"Failed to read configuration file", [fault.message]⟩ place)
  | .ok text =>
      match Settings.parse text with
      | none => Work.complain (Complaint.within ⟨"Failed to parse configuration file", []⟩ place)
      | some settings => pure settings

def settingsOf (invocation : Invocation) : Work Settings := do
  let settings ← match invocation.config with
    | some path => loadSettings path
    | none => pure .standard
  let settings : Settings :=
    { settings with
      storePath := invocation.store.getD settings.storePath
      directoryPath := invocation.directory.getD settings.directoryPath }
  match settings.engine.fault? with
  | some fault => Work.complain ⟨fault.message, []⟩
  | none => pure settings

def loadDirectory (settings : Settings) : Work Directory := do
  let path := settings.directoryPath
  let text ← Work.readFile path ("Failed to read directory file " ++ path)
  match Directory.parse text with
  | .error fault => Work.complain ⟨fault.message, []⟩
  | .ok directory => pure directory

def readRules (file : String) : Work String :=
  Work.readFile file ("Failed to read rule file " ++ file)

def tableOf (file : String) : Except Failure Table → Work Table
  | .error (.source error) => throw (.badSource file error)
  | outcome => Work.result outcome

def prepareStore (settings : Settings) : Work Outcome := do
  Work.openStore settings
  Work.result (← Work.onStore settings settings.engine.prepare)
  pure (.success ("Policy store ready at " ++ settings.storePath ++ "\n"))

def compile (settings : Settings) (file : String) (json : Bool) : Work Outcome := do
  let text ← readRules file
  let table ← tableOf file (Table.compile settings.engine.schemaVersion text)
  pure (.success (if json then table.toJson.pretty ++ "\n" else tableText table))

def install (settings : Settings) (file : String) : Work Outcome := do
  let text ← readRules file
  Work.openStore settings
  let table ← tableOf file (← Work.onStore settings (settings.engine.installInto text))
  pure (.success (s!"Installed {table.size} rule(s) from {file}\n"))

def targetOf (directory : Directory) (question : Question) : Except Complaint Target := do
  let start : Target := { Target.ofRealm question.realm with id := question.entityId }
  let tagged ← question.entityTags.foldlM (fun target name =>
    match directory.tagId? name with
    | some id => .ok (target.withTag id)
    | none => .error ⟨s!"Unknown tag `{name}`", []⟩) start
  question.attributes.foldlM (fun target pair =>
    match splitValue pair.toList with
    | (name, some value) =>
        .ok (target.withAttribute (Text.trim name) (.infer (Text.trim value)))
    | (_, none) => .error ⟨s!"Attribute `{pair}` is not key=value", []⟩) tagged

def check (settings : Settings) (question : Question) (json : Bool) : Work Outcome := do
  Work.openStore settings
  let directory ← loadDirectory settings
  let authority ←
    Work.result (← Work.onStore settings (Authority.start settings.engine (.ok directory.tags)))
  match directory.account? question.user with
  | none => Work.complain ⟨s!"Unknown account `{question.user}`", []⟩
  | some identity =>
      let subject := Context.ofSubject authority.tree directory.explicitTags identity
        question.navigation
      let subject ← Work.result (subject.mapError Failure.storage)
      match targetOf directory question with
      | .error complaint => Work.complain complaint
      | .ok target =>
          let (decision, _) := authority.authorize (question.given.foldl Context.grant subject)
            (.ofTarget authority.tree target) question.action
          pure (.ofDecision decision json)

def listTags (settings : Settings) : Work Outcome := do
  let directory ← loadDirectory settings
  let tree ← Work.result ((TagTree.build directory.tags).mapError Failure.tree)
  pure (.success (treeText tree))

def Invocation.work (invocation : Invocation) : Work Outcome := do
  let settings ← settingsOf invocation
  match invocation.command with
  | .init => prepareStore settings
  | .compile file json => compile settings file json
  | .install file => install settings file
  | .check question json => check settings question json
  | .tags => listTags settings

def version : String := programForm.name ++ " 0.1.0\n"

def program (environment : List (String × String)) (arguments : List String) : Errand Outcome :=
  match Invocation.read environment arguments with
  | .error .misuse => .done (.misuse (programForm.usage ++ "\n"))
  | .error .version => .done (.success version)
  | .error (.help command) => .done (.success (helpOn environment command))
  | .ok invocation => do
      match ← invocation.work.run with
      | .ok outcome => pure outcome
      | .error outcome => pure outcome

end TagPolicy.CommandLine
